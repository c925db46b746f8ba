import Mathlib
import Lockstep.Library.RecordStream
import Lockstep.Consensus.RaftA.Record

/-!
# The durable stream of implementation B

Implementation B appends its records to the disk as frames `[length][body][crc32(body)]`, with the
length in four bytes, and replays them at a restart (`durable` in `raft_b/RaftNodeB.hpp`).

The length of a body of 4 GiB is written modulo `2 ^ 32`, and replay loses the record
(`replay_loses_long_entry`).
-/

namespace Lockstep.Consensus.RaftB.Durable

open Library ByteCodec RecordStream Reader List

structure Entry where
  term : UInt64 := 0
  value : List UInt8 := []
  deriving DecidableEq

inductive Record
  | term (term : UInt64) (hasVote : Bool) (vote : UInt64)
  | truncate (newLen : UInt64)
  | entry (index : UInt64) (e : Entry)
  | snapshot (lastIncludedIndex : UInt64) (state : List Entry)
  | snapshotDelta (fromBase toBase : UInt64) (delta : List Entry)
  | config (chainIndex : UInt64) (members : List UInt64)
  deriving DecidableEq

def crc32 (data : List UInt8) : UInt32 := RaftA.crc32 data

def frame (body : List UInt8) : List UInt8 :=
  putLE 4 body.length ++ (body ++ putLE 4 (crc32 body).toNat)

def putU64 (v : UInt64) : List UInt8 := putLE 8 v.toNat

def putSize (size : ℕ) : List UInt8 := putLE 8 size

def putStr (s : List UInt8) : List UInt8 := putSize s.length ++ s

def putEntry (e : Entry) : List UInt8 := putU64 e.term ++ putStr e.value

namespace Record

def body : Record → List UInt8
  | term t hasVote vote => 1 :: (putU64 t ++ ((if hasVote then 1 else 0) :: putU64 vote))
  | truncate newLen => 2 :: putU64 newLen
  | entry index e => 3 :: (putU64 index ++ putEntry e)
  | snapshot lastIncludedIndex state =>
    4 :: (putU64 lastIncludedIndex ++ (putSize state.length ++ state.flatMap putEntry))
  | config chainIndex members =>
    5 :: (putU64 chainIndex ++ (putSize members.length ++ members.flatMap putU64))
  | snapshotDelta fromBase toBase delta =>
    6 :: (putU64 fromBase ++ (putU64 toBase ++ (putSize delta.length ++ delta.flatMap putEntry)))

def bytes (r : Record) : List UInt8 := frame r.body

def LengthFits (r : Record) : Prop := r.body.length < 2 ^ 32

instance (r : Record) : Decidable r.LengthFits := inferInstanceAs (Decidable (_ < _))

end Record

/-! ### Replay -/

structure Recovered where
  term : UInt64 := 0
  hasVote : Bool := false
  vote : UInt64 := 0
  snapBase : UInt64 := 0
  snapState : List Entry := []
  log : List Entry := []
  cfgRecords : List (UInt64 × List UInt64) := []
  deriving DecidableEq

namespace Recovered

def absEnd (rec : Recovered) : UInt64 := rec.snapBase + UInt64.ofNat rec.log.length

def keptAbove (rec : Recovered) (base : UInt64) : List Entry :=
  if rec.absEnd > base then rec.log.drop (base - rec.snapBase).toNat else []

end Recovered

def readU64 (r : Reader) : UInt64 × Reader :=
  let (v, r) := r.u64
  (UInt64.ofNat v, r)

def readStr (r : Reader) : List UInt8 × Reader :=
  let (len, r) := r.u64
  if !r.good ∨ r.rest.length < len then ([], { r with good := false })
  else (r.rest.take len, { r with rest := r.rest.drop len })

def readEntry (r : Reader) : Entry × Reader :=
  let (term, r) := readU64 r
  let (value, r) := readStr r
  ({ term := term, value := value }, r)

def readMany {α : Type} (item : Reader → α × Reader) : ℕ → Reader → List α × Reader
  | 0, r => ([], r)
  | count + 1, r =>
    if !r.good then ([], r)
    else
      let (first, r) := item r
      let (others, r) := readMany item count r
      (first :: others, r)

section Replay

variable (rec : Recovered) (r : Reader)

def replayTerm : Option Recovered :=
  let (t, r) := readU64 r
  let (hv, r) := r.u8
  let (v, r) := readU64 r
  if !r.good then none else some { rec with term := t, hasVote := hv ≠ 0, vote := v }

def replayTruncate : Option Recovered :=
  let (nl, r) := readU64 r
  if !r.good then none
  else if nl > rec.absEnd ∨ nl < rec.snapBase then none
  else some { rec with log := rec.log.takeD (nl - rec.snapBase).toNat {} }

def replayEntry : Option Recovered :=
  let (idx, r) := readU64 r
  let (e, r) := readEntry r
  if !r.good then none
  else if idx ≠ rec.absEnd + 1 then none
  else some { rec with log := rec.log ++ [e] }

def replaySnapshot : Option Recovered :=
  let (lii, r) := readU64 r
  let (count, r) := readU64 r
  let (st, r) := readMany readEntry count.toNat r
  if !r.good ∨ lii < rec.snapBase ∨ UInt64.ofNat st.length ≠ lii then none
  else some { rec with snapBase := lii, snapState := st, log := rec.keptAbove lii }

def replaySnapshotDelta : Option Recovered :=
  let (fromBase, r) := readU64 r
  let (toBase, r) := readU64 r
  let (count, r) := readU64 r
  if !r.good ∨ fromBase ≠ rec.snapBase ∨ toBase < fromBase ∨ count ≠ toBase - fromBase then none
  else
    let (add, r) := readMany readEntry count.toNat r
    if !r.good then none
    else some { rec with
      snapBase := toBase, snapState := rec.snapState ++ add, log := rec.keptAbove toBase }

def replayConfig : Option Recovered :=
  let (cidx, r) := readU64 r
  let (mcount, r) := readU64 r
  let (members, r) := readMany readU64 mcount.toNat r
  if !r.good then none
  else some { rec with cfgRecords := rec.cfgRecords ++ [(cidx, members)] }

def replayKind : ℕ → Option Recovered
  | 1 => replayTerm rec r
  | 2 => replayTruncate rec r
  | 3 => replayEntry rec r
  | 4 => replaySnapshot rec r
  | 6 => replaySnapshotDelta rec r
  | 5 => replayConfig rec r
  | _ => none

end Replay

def replayBody (rec : Recovered) (body : List UInt8) : Option Recovered :=
  let (kind, r) := u8 { rest := body }
  replayKind rec r kind

def readFrame (image : List UInt8) : Option (List UInt8 × List UInt8) :=
  if image.length < 4 then none
  else
    let blen := getLE (image.take 4)
    let rest := image.drop 4
    if rest.length < blen + 4 then none
    else
      let want := getLE ((rest.drop blen).take 4)
      if blen = 0 ∨ (crc32 (rest.take blen)).toNat ≠ want then none
      else some (rest.take blen, rest.drop (blen + 4))

def replay (image : List UInt8) : Recovered :=
  scan readFrame replayBody image.length image {}

/-- What a record does to the recovered state, unless it violates its guard: an entry follows the
last one, a truncation names a length of the suffix, a snapshot holds as many entries as its base
says and does not go back, and a delta starts at the base. -/
def Record.meaning (rec : Recovered) : Record → Option Recovered
  | .term t hasVote vote => some { rec with term := t, hasVote := hasVote, vote := vote }
  | .truncate newLen =>
    if rec.snapBase ≤ newLen ∧ newLen ≤ rec.absEnd then
      some { rec with log := rec.log.takeD (newLen - rec.snapBase).toNat {} }
    else none
  | .entry index e =>
    if index = rec.absEnd + 1 then some { rec with log := rec.log ++ [e] } else none
  | .snapshot lastIncludedIndex state =>
    if rec.snapBase ≤ lastIncludedIndex ∧ UInt64.ofNat state.length = lastIncludedIndex then
      some { rec with
        snapBase := lastIncludedIndex, snapState := state, log := rec.keptAbove lastIncludedIndex }
    else none
  | .snapshotDelta fromBase toBase delta =>
    if fromBase = rec.snapBase ∧ fromBase ≤ toBase ∧
        UInt64.ofNat delta.length = toBase - fromBase then
      some { rec with
        snapBase := toBase, snapState := rec.snapState ++ delta, log := rec.keptAbove toBase }
    else none
  | .config chainIndex members =>
    some { rec with cfgRecords := rec.cfgRecords ++ [(chainIndex, members)] }

lemma readU64_put (v : UInt64) (rest : List UInt8) :
    readU64 { rest := putU64 v ++ rest } = (v, { rest := rest }) := by
  rw [readU64, putU64, u64_putLE _ v.toNat_lt]
  exact congrArg (·, _) UInt64.ofNat_toNat

lemma readU64_putSize {size : ℕ} (hsize : size < 2 ^ 64) (rest : List UInt8) :
    readU64 { rest := putSize size ++ rest } = (UInt64.ofNat size, { rest := rest }) := by
  rw [readU64, putSize, u64_putLE _ hsize]

variable {e : Entry}

lemma readEntry_put (he : e.value.length < 2 ^ 64) (rest : List UInt8) :
    readEntry { rest := putEntry e ++ rest } = (e, { rest := rest }) := by
  rw [readEntry, putEntry, append_assoc, readU64_put]
  dsimp only
  rw [readStr, putStr, putSize, append_assoc, u64_putLE _ he]
  simp

lemma readMany_flatMap {α : Type} {item : Reader → α × Reader} {put : α → List UInt8}
    {items : List α} (hitem : ∀ a ∈ items, ∀ rest : List UInt8,
      item { rest := put a ++ rest } = (a, { rest := rest })) (rest : List UInt8) :
    readMany item items.length { rest := items.flatMap put ++ rest } =
      (items, { rest := rest }) := by
  induction items with
  | nil => rfl
  | cons a items ih =>
    rw [flatMap_cons, append_assoc, length_cons, readMany, hitem a mem_cons_self]
    dsimp only
    rw [ih (forall_mem_cons.mp hitem).2]
    rfl

lemma length_putEntry (e : Entry) : (putEntry e).length = 16 + e.value.length := by
  rw [putEntry, putStr, putU64, putSize, length_append, length_append, length_putLE, length_putLE]
  omega

variable {entries : List Entry}

lemma length_value_le (he : e ∈ entries) :
    e.value.length ≤ (entries.flatMap putEntry).length := by
  obtain ⟨before, after, rfl⟩ := append_of_mem he
  rw [flatMap_append, flatMap_cons, length_append, length_append, length_putEntry]
  omega

lemma readMany_putEntry (h : (entries.flatMap putEntry).length < 2 ^ 32) :
    readMany readEntry (UInt64.ofNat entries.length).toNat { rest := entries.flatMap putEntry } =
      (entries, { rest := [] }) ∧ entries.length < 2 ^ 64 := by
  have hlength : entries.length ≤ (entries.flatMap putEntry).length :=
    length_le_length_flatMap fun e _ ↦ by rw [length_putEntry]; omega
  have hmany := @readMany_flatMap Entry readEntry putEntry entries
    (fun e he ↦ readEntry_put ((length_value_le he).trans_lt (h.trans (by decide)))) []
  rw [append_nil] at hmany
  refine ⟨?_, hlength.trans_lt (h.trans (by decide))⟩
  rw [UInt64.toNat_ofNat_of_lt' (hlength.trans_lt (h.trans (by decide))), hmany]

/-! ### Replaying frames -/

lemma readU64_put_nil (v : UInt64) : readU64 { rest := putU64 v } = (v, { rest := [] }) := by
  have hread := readU64_put v []
  rwa [append_nil] at hread

variable (rec : Recovered)

lemma replayTerm_put (t : UInt64) (hasVote : Bool) (vote : UInt64) :
    replayTerm rec { rest := putU64 t ++ ((if hasVote then 1 else 0) :: putU64 vote) } =
      (Record.term t hasVote vote).meaning rec := by
  have hflag : ((if hasVote then 1 else 0 : UInt8).toNat ≠ 0) = (hasVote = true) := by
    cases hasVote <;> simp
  simp [replayTerm, readU64_put, u8_cons, readU64_put_nil, hflag, Record.meaning]

lemma replayTruncate_put (newLen : UInt64) :
    replayTruncate rec { rest := putU64 newLen } = (Record.truncate newLen).meaning rec := by
  rw [replayTruncate, readU64_put_nil]
  simp only [Bool.not_true, Bool.false_eq_true, if_false]
  rw [← ite_not]
  refine if_congr ?_ rfl rfl
  rw [not_or, UInt64.not_lt, UInt64.not_lt, and_comm]

lemma replayEntry_put (index : UInt64) (he : e.value.length < 2 ^ 64) :
    replayEntry rec { rest := putU64 index ++ putEntry e } =
      (Record.entry index e).meaning rec := by
  have hread := readEntry_put he []
  rw [append_nil] at hread
  simp [replayEntry, readU64_put, hread, Record.meaning]

lemma replaySnapshot_put (lastIncludedIndex : UInt64) {state : List Entry}
    (hstate : (state.flatMap putEntry).length < 2 ^ 32) :
    replaySnapshot rec
        { rest := putU64 lastIncludedIndex ++ (putSize state.length ++ state.flatMap putEntry) } =
      (Record.snapshot lastIncludedIndex state).meaning rec := by
  obtain ⟨hmany, hlength⟩ := readMany_putEntry hstate
  simp only [replaySnapshot, readU64_put, readU64_putSize hlength, hmany, Record.meaning,
    Bool.not_true, Bool.false_eq_true, false_or]
  rw [← ite_not]
  refine if_congr ?_ rfl rfl
  rw [not_or, UInt64.not_lt, not_not]

lemma replaySnapshotDelta_put (fromBase toBase : UInt64) {delta : List Entry}
    (hdelta : (delta.flatMap putEntry).length < 2 ^ 32) :
    replaySnapshotDelta rec
        { rest := putU64 fromBase ++
            (putU64 toBase ++ (putSize delta.length ++ delta.flatMap putEntry)) } =
      (Record.snapshotDelta fromBase toBase delta).meaning rec := by
  obtain ⟨hmany, hlength⟩ := readMany_putEntry hdelta
  simp only [replaySnapshotDelta, readU64_put, readU64_putSize hlength, hmany, Record.meaning,
    Bool.not_true, Bool.false_eq_true, false_or, if_false]
  rw [← ite_not]
  refine if_congr ?_ rfl rfl
  rw [not_or, not_or, UInt64.not_lt, not_not, not_not]

lemma replayConfig_put (chainIndex : UInt64) {members : List UInt64}
    (hmembers : (members.flatMap putU64).length < 2 ^ 32) :
    replayConfig rec
        { rest := putU64 chainIndex ++ (putSize members.length ++ members.flatMap putU64) } =
      (Record.config chainIndex members).meaning rec := by
  have hlength : members.length < 2 ^ 64 := by
    have hle : members.length ≤ (members.flatMap putU64).length :=
      length_le_length_flatMap fun v _ ↦ by rw [putU64, length_putLE]; decide
    omega
  have hmany := @readMany_flatMap UInt64 readU64 putU64 members (fun v _ ↦ readU64_put v) []
  rw [append_nil] at hmany
  simp only [replayConfig, readU64_put, readU64_putSize hlength,
    UInt64.toNat_ofNat_of_lt' hlength, hmany]
  rfl

lemma replayBody_cons (kind : UInt8) (fields : List UInt8) :
    replayBody rec (kind :: fields) = replayKind rec { rest := fields } kind.toNat := by
  rw [replayBody, u8_cons]

lemma replayBody_body {r : Record} (hr : r.LengthFits) :
    replayBody rec r.body = r.meaning rec := by
  unfold Record.LengthFits at hr
  cases r with
  | term t hasVote vote =>
    exact replayTerm_put rec t hasVote vote
  | truncate newLen =>
    exact replayTruncate_put rec newLen
  | entry index e =>
    rw [Record.body, length_cons, length_append, length_putEntry] at hr
    rw [Record.body, replayBody_cons, show (3 : UInt8).toNat = 3 from rfl, replayKind]
    exact replayEntry_put rec index (by omega)
  | snapshot lastIncludedIndex state =>
    rw [Record.body, length_cons, length_append, length_append] at hr
    rw [Record.body, replayBody_cons, show (4 : UInt8).toNat = 4 from rfl, replayKind]
    exact replaySnapshot_put rec lastIncludedIndex (by omega)
  | snapshotDelta fromBase toBase delta =>
    rw [Record.body, length_cons, length_append, length_append, length_append] at hr
    rw [Record.body, replayBody_cons, show (6 : UInt8).toNat = 6 from rfl, replayKind]
    exact replaySnapshotDelta_put rec fromBase toBase (by omega)
  | config chainIndex members =>
    rw [Record.body, length_cons, length_append, length_append] at hr
    rw [Record.body, replayBody_cons, show (5 : UInt8).toNat = 5 from rfl, replayKind]
    exact replayConfig_put rec chainIndex (by omega)

/-! ### Frames and cuts -/

lemma length_frame (body : List UInt8) : (frame body).length = body.length + 8 := by
  rw [frame, length_append, length_append, length_putLE, length_putLE]
  omega

lemma readFrame_putLE {len : ℕ} (hlen : len < 2 ^ 32) (rest : List UInt8) :
    readFrame (putLE 4 len ++ rest) =
      if rest.length < len + 4 then none
      else if len = 0 ∨ (crc32 (rest.take len)).toNat ≠ getLE ((rest.drop len).take 4) then none
      else some (rest.take len, rest.drop (len + 4)) := by
  have htake : (putLE 4 len ++ rest).take 4 = putLE 4 len := by simp
  have hdrop : (putLE 4 len ++ rest).drop 4 = rest := by simp
  have hlength : ¬ (putLE 4 len ++ rest).length < 4 := by
    rw [length_append, length_putLE]
    omega
  rw [readFrame, if_neg hlength, htake, hdrop, getLE_putLE_of_lt hlen]

variable {body : List UInt8}

lemma readFrame_frame (hpos : 0 < body.length) (hlen : body.length < 2 ^ 32) (rest : List UInt8) :
    readFrame (frame body ++ rest) = some (body, rest) := by
  have hcrc : (crc32 body).toNat < 256 ^ 4 := UInt32.toNat_lt _
  rw [frame, append_assoc, readFrame_putLE hlen, append_assoc]
  have hlength : ¬ (body ++ (putLE 4 (crc32 body).toNat ++ rest)).length < body.length + 4 := by
    rw [length_append, length_append, length_putLE]
    omega
  have htrailer : (putLE 4 (crc32 body).toNat ++ rest).take 4 = putLE 4 (crc32 body).toNat := by
    simp
  rw [if_neg hlength, take_left, drop_left, htrailer, getLE_putLE_of_lt hcrc, if_neg (by omega)]
  refine congrArg (fun after ↦ some (body, after)) ?_
  simp

lemma readFrame_take (hlen : body.length < 2 ^ 32) {cut : ℕ}
    (hcut : cut < (frame body).length) : readFrame ((frame body).take cut) = none := by
  rw [length_frame] at hcut
  by_cases hheader : cut < 4
  · rw [readFrame, if_pos]
    rw [length_take]
    omega
  · rw [frame, take_append, length_putLE,
      take_of_length_le (by rw [length_putLE]; omega), readFrame_putLE hlen, if_pos]
    rw [length_take]
    omega

lemma readFrame_nil : readFrame [] = none := rfl

lemma body_length_pos (r : Record) : 0 < r.body.length := by
  cases r <;> exact Nat.succ_pos _

lemma within_frame_map (cut : ℕ) (records : List Record) :
    within frame cut (records.map Record.body) =
      (within Record.bytes cut records).map Record.body := by
  induction records generalizing cut with
  | nil => rfl
  | cons r records ih =>
    rw [map_cons, within, within, Record.bytes]
    split_ifs
    · rw [map_cons, ih]
    · rfl

lemma flatMap_bytes (records : List Record) :
    records.flatMap Record.bytes = (records.map Record.body).flatMap frame := by
  rw [flatMap_map]
  rfl

variable {records : List Record}

lemma steps_replayBody (hrecords : ∀ r ∈ records, r.LengthFits) (rec : Recovered) :
    steps replayBody (records.map Record.body) rec =
      steps (fun rec r ↦ Record.meaning rec r) records rec := by
  induction records generalizing rec with
  | nil => rfl
  | cons r records ih =>
    rw [map_cons, steps, steps, replayBody_body rec (hrecords r mem_cons_self)]
    cases r.meaning rec with
    | none => rfl
    | some next => exact ih (forall_mem_cons.mp hrecords).2 next

lemma replay_take_eq_steps (hrecords : ∀ r ∈ records, r.LengthFits) (cut : ℕ) :
    replay ((records.flatMap Record.bytes).take cut) =
      steps (fun rec r ↦ Record.meaning rec r) (within Record.bytes cut records) {} := by
  have hfits : ∀ body ∈ records.map Record.body, 0 < body.length ∧ body.length < 2 ^ 32 := by
    rintro body hbody
    obtain ⟨r, hr, rfl⟩ := mem_map.mp hbody
    exact ⟨body_length_pos r, hrecords r hr⟩
  have hput : ∀ body ∈ records.map Record.body, 0 < (frame body).length := fun body _ ↦ by
    rw [length_frame]
    omega
  rw [replay, flatMap_bytes, scan_take_flatMap
    (fun body hbody ↦ readFrame_frame (hfits body hbody).1 (hfits body hbody).2)
    (fun body hbody cut hcut ↦ readFrame_take (hfits body hbody).2 hcut) readFrame_nil
    (length_within_le hput cut), within_frame_map]
  exact steps_replayBody (fun r hr ↦ hrecords r ((within_isPrefix _ _ _).mem hr)) {}

lemma within_length (records : List Record) :
    within Record.bytes (records.flatMap Record.bytes).length records = records := by
  induction records with
  | nil => rfl
  | cons r records ih =>
    rw [flatMap_cons, length_append, within, if_pos (Nat.le_add_right _ _),
      Nat.add_sub_cancel_left, ih]

lemma replay_eq_steps (hrecords : ∀ r ∈ records, r.LengthFits) :
    replay (records.flatMap Record.bytes) =
      steps (fun rec r ↦ Record.meaning rec r) records {} := by
  have hreplay := replay_take_eq_steps hrecords (records.flatMap Record.bytes).length
  rwa [take_length, within_length] at hreplay

/-- For records whose lengths fit: replaying the bytes before a cut is replaying the frames that lie
before it as a whole, and replaying the frames is folding the meanings of the records up to the
first one that violates its guard. -/
theorem replay_take (records : List Record) (hrecords : ∀ r ∈ records, r.LengthFits) (cut : ℕ) :
    replay ((records.flatMap Record.bytes).take cut) =
        replay ((within Record.bytes cut records).flatMap Record.bytes) ∧
      replay (records.flatMap Record.bytes) =
        steps (fun rec r ↦ Record.meaning rec r) records {} := by
  refine ⟨?_, replay_eq_steps hrecords⟩
  rw [replay_take_eq_steps hrecords cut]
  exact (replay_eq_steps fun r hr ↦ hrecords r ((within_isPrefix _ _ _).mem hr)).symm

/-- An entry, a snapshot of it and another entry, cut within the last frame. -/
theorem replay_take_torn :
    (∀ r ∈ [Record.entry 1 ⟨1, [7]⟩, .snapshot 1 [⟨1, [7]⟩], .entry 2 ⟨1, [8]⟩], r.LengthFits) ∧
      replay ((([Record.entry 1 ⟨1, [7]⟩, .snapshot 1 [⟨1, [7]⟩], .entry 2 ⟨1, [8]⟩]).flatMap
        Record.bytes).take 100) = { snapBase := 1, snapState := [⟨1, [7]⟩] } :=
  ⟨by decide +kernel, ((replay_take _ (by decide +kernel) 100).1).trans (by decide +kernel)⟩

def firstEntry (value : List UInt8) : Record := .entry 1 ⟨1, value⟩

lemma readFrame_wraps (hbody : body.length = 2 ^ 32) : readFrame (frame body) = none := by
  have hzero : putLE 4 body.length = putLE 4 0 := by
    rw [hbody]
    rfl
  rw [frame, hzero, readFrame_putLE (by decide)]
  split_ifs with hshort hempty
  · rfl
  · rfl
  · exact absurd (Or.inl rfl) hempty

lemma replay_firstEntry {value : List UInt8} (hvalue : value.length = 2 ^ 32 - 25) :
    replay ([firstEntry value].flatMap Record.bytes) = {} ∧
      steps (fun rec r ↦ Record.meaning rec r) [firstEntry value] {} =
        { log := [⟨1, value⟩] } := by
  have hbody : (firstEntry value).body.length = 2 ^ 32 := by
    rw [firstEntry, Record.body, length_cons, length_append, length_putEntry, putU64,
      length_putLE, hvalue]
    norm_num
  refine ⟨?_, rfl⟩
  rw [flatMap_cons, flatMap_nil, append_nil, replay, Record.bytes]
  generalize (frame (firstEntry value).body).length = fuel
  cases fuel with
  | zero => rfl
  | succ fuel => rw [scan, readFrame_wraps hbody]

theorem replay_loses_long_entry :
    replay ([firstEntry (replicate (2 ^ 32 - 25) 0)].flatMap Record.bytes) = {} ∧
      replay ([firstEntry (replicate (2 ^ 32 - 25) 0)].flatMap Record.bytes) ≠
        steps (fun rec r ↦ Record.meaning rec r) [firstEntry (replicate (2 ^ 32 - 25) 0)]
          {} := by
  obtain ⟨hreplay, hsteps⟩ := replay_firstEntry (@length_replicate UInt8 (2 ^ 32 - 25) 0)
  refine ⟨hreplay, fun heq ↦ ?_⟩
  rw [hreplay] at heq
  exact absurd (congrArg Recovered.log heq) (cons_ne_nil _ _).symm

end Lockstep.Consensus.RaftB.Durable
