import Mathlib
import Lockstep.Consensus.RaftA.RecordReplay

/-!
# Messages on the wire

`encode` and `decode` of `raft_a/RaftNodeA.hpp`.
-/

namespace Lockstep.Consensus.RaftA

open Library ByteCodec Reader Replay List

def MsgType.tag : MsgType → UInt8
  | .requestVote => 1
  | .requestVoteResp => 2
  | .appendEntries => 3
  | .appendEntriesResp => 4
  | .installSnapshot => 5
  | .installSnapshotResp => 6
  | .configChange => 7
  | .configChangeResp => 8

def MsgType.ofTag? : ℕ → Option MsgType
  | 1 => some .requestVote
  | 2 => some .requestVoteResp
  | 3 => some .appendEntries
  | 4 => some .appendEntriesResp
  | 5 => some .installSnapshot
  | 6 => some .installSnapshotResp
  | 7 => some .configChange
  | 8 => some .configChangeResp
  | _ => none

/-! ### The codec -/

def putCounted {α : Type} (put : α → List UInt8) (items : List α) : List UInt8 :=
  putLE 4 items.length ++ items.flatMap put

namespace RaftMsg

def fields (m : RaftMsg) : List UInt8 :=
  match m.type with
  | .requestVote => putLE 8 m.lastLogIndex ++ (putLE 8 m.lastLogTerm ++ putLE 8 m.cfgIndex)
  | .requestVoteResp => [if m.granted then 1 else 0]
  | .appendEntries => putLE 8 m.prevLogIndex ++ (putLE 8 m.prevLogTerm ++
    (putLE 8 m.leaderCommit ++ putCounted putEntry m.entries))
  | .appendEntriesResp => (if m.success then 1 else 0) :: putLE 8 m.matchIndex
  | .installSnapshot => putLE 8 m.lastIncludedIndex ++ putCounted putEntry m.snapState
  | .installSnapshotResp => putLE 8 m.matchIndex
  | .configChange => putLE 8 m.configChainIndex ++ putCounted (putLE 8) m.configMembers
  | .configChangeResp => putLE 8 m.configChainIndex

def body (m : RaftMsg) : List UInt8 :=
  m.type.tag :: (putLE 8 m.term ++ (putLE 8 m.source ++ (putLE 8 m.dest ++
    (putLE 8 m.clusterToken ++ m.fields))))

def encode (m : RaftMsg) : List UInt8 := FrameStream.frame crc32 m.body

end RaftMsg

def readCounted {α : Type} (len : ℕ) (item : Reader → α × Reader) : StateM Reader (List α) :=
  fun r ↦
    let (count, r) := r.u32
    if !r.good ∨ len < count then ([], { r with good := false }) else r.many item count

def readFields (len : ℕ) (m : RaftMsg) : StateM Reader RaftMsg :=
  match m.type with
  | .requestVote => do
    return { m with lastLogIndex := ← u64, lastLogTerm := ← u64, cfgIndex := ← u64 }
  | .requestVoteResp => do return { m with granted := (← u8) ≠ 0 }
  | .appendEntries => do
    return { m with
      prevLogIndex := ← u64, prevLogTerm := ← u64, leaderCommit := ← u64
      entries := ← readCounted len readEntry }
  | .appendEntriesResp => do return { m with success := (← u8) ≠ 0, matchIndex := ← u64 }
  | .installSnapshot => do
    return { m with lastIncludedIndex := ← u64, snapState := ← readCounted len readEntry }
  | .installSnapshotResp => do return { m with matchIndex := ← u64 }
  | .configChange => do
    return { m with configChainIndex := ← u64, configMembers := ← readCounted len u64 }
  | .configChangeResp => do return { m with configChainIndex := ← u64 }

inductive Decoded where
  | rejected
  | msg (m : RaftMsg)
  | outside
  deriving DecidableEq

def readHead : StateM Reader RaftMsg := do
  return { term := ← u64, source := ← u64, dest := ← u64, clusterToken := ← u64 }

def decodeBody (body : List UInt8) : Decoded :=
  let (tag, r) := u8 { rest := body }
  let (m, r) := readHead r
  match MsgType.ofTag? tag with
  | none => .rejected
  | some type =>
    let (m, r) := readFields body.length { m with type := type } r
    if r.good then .msg m else .rejected

def decode (bytes : List UInt8) : Decoded :=
  if bytes.length < 8 then .rejected
  else
    let crc := getAt 4 bytes 0
    let len := getAt 4 bytes 4
    if bytes.length < (8 + len) % 2 ^ 32 then .rejected
    else if bytes.length < 8 + len then .outside
    else if (crc32 (slice bytes 8 len)).toNat ≠ crc then .rejected
    else decodeBody (slice bytes 8 len)

/-! ### The round trip -/

namespace RaftMsg

def head (m : RaftMsg) : RaftMsg :=
  { type := m.type, term := m.term, source := m.source, dest := m.dest
    clusterToken := m.clusterToken }

def carried (m : RaftMsg) : RaftMsg :=
  let head := m.head
  match m.type with
  | .requestVote => { head with
      lastLogIndex := m.lastLogIndex, lastLogTerm := m.lastLogTerm, cfgIndex := m.cfgIndex }
  | .requestVoteResp => { head with granted := m.granted }
  | .appendEntries => { head with
      prevLogIndex := m.prevLogIndex, prevLogTerm := m.prevLogTerm, leaderCommit := m.leaderCommit
      entries := m.entries }
  | .appendEntriesResp => { head with success := m.success, matchIndex := m.matchIndex }
  | .installSnapshot => { head with
      lastIncludedIndex := m.lastIncludedIndex, snapState := m.snapState }
  | .installSnapshotResp => { head with matchIndex := m.matchIndex }
  | .configChange => { head with
      configChainIndex := m.configChainIndex, configMembers := m.configMembers }
  | .configChangeResp => { head with configChainIndex := m.configChainIndex }

structure Fits (m : RaftMsg) : Prop where
  head : m.term < 2 ^ 64 ∧ m.source < 2 ^ 64 ∧ m.dest < 2 ^ 64 ∧ m.clusterToken < 2 ^ 64
  vote : m.lastLogIndex < 2 ^ 64 ∧ m.lastLogTerm < 2 ^ 64 ∧ m.cfgIndex < 2 ^ 64
  append : m.prevLogIndex < 2 ^ 64 ∧ m.prevLogTerm < 2 ^ 64 ∧ m.leaderCommit < 2 ^ 64
  others : m.matchIndex < 2 ^ 64 ∧ m.lastIncludedIndex < 2 ^ 64 ∧ m.configChainIndex < 2 ^ 64
  entries : ∀ e ∈ m.entries ++ m.snapState, DurableRecord.EntryFits e
  members : ∀ id ∈ m.configMembers, id < 2 ^ 64

variable {m : RaftMsg}

lemma readCounted_put {α : Type} {put : α → List UInt8} {item : Reader → α × Reader} {len : ℕ}
    (items : List α) (hput : ∀ a, 0 < (put a).length)
    (hmany : (items.flatMap put).length < 2 ^ 32 → ∀ rest,
      many item items.length { rest := items.flatMap put ++ rest } = (items, { rest := rest }))
    (hlen : (putCounted put items).length ≤ len) (hlt : len < 2 ^ 32) :
    readCounted len item { rest := putCounted put items } = (items, { rest := [] }) := by
  have hcount := length_le_length_flatMap_put put hput items
  rw [putCounted, length_append, length_putLE] at hlen
  rw [readCounted, putCounted, u32_putLE _ (by omega)]
  simp only [Bool.not_true, Bool.false_eq_true, false_or]
  rw [if_neg (by omega), ← append_nil (items.flatMap put), hmany (by omega)]

lemma u64_last {value : ℕ} (hvalue : value < 2 ^ 64) :
    u64 { rest := putLE 8 value } = (value, { rest := [] }) := by
  rw [← append_nil (putLE 8 value), u64_putLE _ hvalue]

lemma readFields_fields (hfits : m.Fits) {len : ℕ} (hlen : m.fields.length ≤ len)
    (hlt : len < 2 ^ 32) :
    readFields len m.head { rest := m.fields } = (m.carried, { rest := [] }) := by
  obtain ⟨-, ⟨hlastIndex, hlastTerm, hcfg⟩, ⟨hprevIndex, hprevTerm, hcommit⟩,
    ⟨hmatch, hincluded, hchain⟩, hentries, hmembers⟩ := hfits
  have hentry : ∀ e : LogEntry, 0 < (putEntry e).length := fun e ↦ by
    rw [length_putEntry]
    omega
  rw [fields] at hlen
  rw [readFields, fields, carried, head]
  cases htype : m.type with
  | requestVote =>
    simp only [bind, StateT.bind, pure, StateT.pure, u64_putLE _ hlastIndex,
      u64_putLE _ hlastTerm, u64_last hcfg]
  | requestVoteResp => cases m.granted <;> rfl
  | appendEntries =>
    rw [htype] at hlen
    simp only [length_append] at hlen
    have hread := readCounted_put m.entries hentry (many_readEntry fun e he ↦
      hentries e (mem_append_left _ he)) (by omega) hlt
    simp only [bind, StateT.bind, pure, StateT.pure, u64_putLE _ hprevIndex,
      u64_putLE _ hprevTerm, u64_putLE _ hcommit, hread]
  | appendEntriesResp =>
    simp only [bind, StateT.bind, pure, StateT.pure, u8_cons, u64_last hmatch]
    cases m.success <;> rfl
  | installSnapshot =>
    rw [htype] at hlen
    simp only [length_append] at hlen
    have hread := readCounted_put m.snapState hentry (many_readEntry fun e he ↦
      hentries e (mem_append_right _ he)) (by omega) hlt
    simp only [bind, StateT.bind, pure, StateT.pure, u64_putLE _ hincluded, hread]
  | installSnapshotResp =>
    simp only [bind, StateT.bind, pure, StateT.pure, u64_last hmatch]
  | configChange =>
    rw [htype] at hlen
    simp only [length_append] at hlen
    have hread := readCounted_put m.configMembers
      (fun id ↦ (length_putLE 8 id).ge.trans_lt' (by decide)) (fun _ ↦ many_u64 hmembers)
      (by omega) hlt
    simp only [bind, StateT.bind, pure, StateT.pure, u64_putLE _ hchain, hread]
  | configChangeResp =>
    simp only [bind, StateT.bind, pure, StateT.pure, u64_last hchain]

lemma decodeBody_body (hfits : m.Fits) (hbody : m.body.length < 2 ^ 32) :
    decodeBody m.body = .msg m.carried := by
  obtain ⟨hterm, hsource, hdest, htoken⟩ := hfits.head
  have htag : MsgType.ofTag? m.type.tag.toNat = some m.type := by cases m.type <;> rfl
  have hlen : m.fields.length ≤ m.body.length := by simp [body]; omega
  have hread := readFields_fields hfits hlen hbody
  rw [head] at hread
  rw [decodeBody]
  nth_rw 1 [body]
  rw [u8_cons]
  simp only [readHead, bind, StateT.bind, pure, StateT.pure, u64_putLE _ hterm,
    u64_putLE _ hsource, u64_putLE _ hdest, u64_putLE _ htoken, htag, hread, if_true]

lemma decode_header {crc len : ℕ} (hcrc : crc < 2 ^ 32) (hlen : len < 2 ^ 32)
    (rest : List UInt8) :
    decode (putLE 4 crc ++ putLE 4 len ++ rest) =
      if rest.length + 8 < (len + 8) % 2 ^ 32 then .rejected
      else if rest.length < len then .outside
      else if (crc32 (rest.take len)).toNat ≠ crc then .rejected
      else decodeBody (rest.take len) := by
  have hread : getAt 4 (putLE 4 len ++ rest) (4 - (putLE 4 crc).length) = len := by
    rw [length_putLE]
    exact getAt_putLE hlen rest
  have hslice : slice (putLE 4 crc ++ putLE 4 len ++ rest) 8 len = rest.take len := by
    rw [slice_skip (by simp)]
    simp [slice]
  have hcrcAt : getAt 4 (putLE 4 crc ++ putLE 4 len ++ rest) 0 = crc := by
    rw [append_assoc, getAt_putLE hcrc]
  have hlenAt : getAt 4 (putLE 4 crc ++ putLE 4 len ++ rest) 4 = len := by
    rw [append_assoc, getAt_skip (by simp), hread]
  have hlength : (putLE 4 crc ++ putLE 4 len ++ rest).length = rest.length + 8 := by
    simp only [length_append, length_putLE]
    omega
  rw [decode, hlength, if_neg (by omega)]
  simp only [hcrcAt, hlenAt, hslice, Nat.add_comm 8 len, Nat.add_lt_add_iff_right]

lemma take_encode (m : RaftMsg) {cut : ℕ} (hcut : 8 ≤ cut) :
    m.encode.take cut = putLE 4 (crc32 m.body).toNat ++ putLE 4 m.body.length ++
      m.body.take (cut - 8) := by
  rw [encode, FrameStream.frame, take_append, take_of_length_le (by simpa using hcut)]
  simp

lemma decode_cut_of_wide (hbody : m.body.length < 2 ^ 32) (hwide : 2 ^ 32 ≤ m.body.length + 8) :
    decode (m.encode.take 8) = .outside := by
  rw [take_encode m le_rfl, decode_header (UInt32.toNat_lt _) hbody, Nat.sub_self, take_zero,
    if_neg (by rw [length_nil]; omega), if_pos (by rw [length_nil]; omega)]

/-- A body that leaves eight bytes below `2 ^ 32` is read back, and a cut frame is refused. -/
theorem wire_round_trip_iff (m : RaftMsg) (hfits : m.Fits) (hbody : m.body.length < 2 ^ 32) :
    (decode m.encode = .msg m.carried ∧
      ∀ cut < m.encode.length, decode (m.encode.take cut) = .rejected) ↔
      m.body.length + 8 < 2 ^ 32 := by
  have hlength : m.encode.length = m.body.length + 8 := by
    simp [encode, FrameStream.frame]
    omega
  constructor
  · rintro ⟨-, hcut⟩
    by_contra hwide
    have hheader := hcut 8 (by have := m.body.length_pos_iff.mpr (cons_ne_nil _ _); omega)
    rw [decode_cut_of_wide hbody (by omega)] at hheader
    cases hheader
  · intro hroom
    have hdecode := decode_header (UInt32.toNat_lt (crc32 m.body)) hbody
    rw [Nat.mod_eq_of_lt hroom] at hdecode
    refine ⟨?_, fun cut hcut ↦ ?_⟩
    · rw [encode, FrameStream.frame, hdecode, if_neg (by omega), if_neg (by omega), take_length,
        if_neg (by simp), decodeBody_body hfits hbody]
    · rcases lt_or_ge cut 8 with hshort | hlong
      · rw [decode, if_pos (by rw [length_take]; omega)]
      · rw [take_encode m hlong, hdecode, if_pos (by rw [length_take]; omega)]

def ballot : RaftMsg := { type := .requestVote, term := 3, source := 1, dest := 2 }

theorem wire_round_trip_ballot :
    decode ballot.encode = .msg ballot.carried ∧
      ∀ cut < ballot.encode.length, decode (ballot.encode.take cut) = .rejected :=
  (wire_round_trip_iff ballot ⟨by decide, by decide, by decide, by decide, nofun, nofun⟩
    (by decide)).mpr (by decide)

def wideAppend (width : ℕ) : RaftMsg :=
  { type := .appendEntries, entries := [{ term := 0, value := replicate width 0 }] }

lemma length_body_wideAppend (width : ℕ) : (wideAppend width).body.length = width + 73 := by
  simp [wideAppend, body, fields, putCounted, length_putEntry]
  omega

theorem decode_cut_wideAppend :
    (wideAppend (2 ^ 32 - 81)).body.length < 2 ^ 32 ∧
      decode ((wideAppend (2 ^ 32 - 81)).encode.take 8) = .outside :=
  have hbody := length_body_wideAppend (2 ^ 32 - 81)
  ⟨by omega, decode_cut_of_wide (by omega) (by omega)⟩

end RaftMsg

end Lockstep.Consensus.RaftA
