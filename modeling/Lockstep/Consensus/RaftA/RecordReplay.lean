import Lockstep.Consensus.RaftA.Recovery

/-!
# Replaying records

What recovery does with a stream of framed records, said about the records themselves.
-/

namespace Lockstep.Consensus.RaftA

open Library ByteCodec DurableRecord Reader FrameStream List Option

variable {st st' : Replay} {r : DurableRecord}

namespace DurableRecord

/-- Recovery reads the record back: its fields have the widths of the source's types, and its body
is not longer than a mebibyte. -/
def Recoverable (r : DurableRecord) : Prop := r.Fits ∧ r.Readable

instance (r : DurableRecord) : Decidable r.Recoverable :=
  inferInstanceAs (Decidable (_ ∧ _ ≤ _))

def damagedBytes (r : DurableRecord) (damaged : List UInt8) : List UInt8 :=
  putLE 4 (crc32 r.body).toNat ++ putLE 4 r.body.length ++ damaged

lemma limit_lt : kMaxRecord < 2 ^ 32 := by decide

end DurableRecord

namespace Replay

/-! ### The effect of a record -/

def applyRecord (st : Replay) : DurableRecord → Option Replay
  | .recMeta term vote => some { st with term := term, vote := vote, any := true }
  | .recEntry index e =>
    if index = st.length + 1 then some { st with log := st.log ++ [e], any := true } else none
  | .recTrunc newLen =>
    if newLen ≤ st.length ∧ st.base ≤ newLen then
      some { st with log := st.log.take (newLen - st.base), any := true }
    else none
  | .recSnapshot lii state =>
    if st.base ≤ lii ∧ state.length = lii then
      some { st with base := lii, state := state, log := st.kept lii, any := true }
    else none
  | .recSnapshotDelta fromBase toBase delta =>
    if fromBase = st.base ∧ fromBase ≤ toBase ∧ delta.length = toBase - fromBase then
      some { st with
        base := toBase, state := st.state ++ delta, log := st.kept toBase, any := true }
    else none
  | .recConfig cidx members =>
    if cidx ≠ 0 ∧ cidx ≤ st.chain.length then
      some { st with
        chain := (st.chain ++ replicate (cidx + 1 - st.chain.length) []).set cidx members
        cfgIdx := max st.cfgIdx cidx
        haveCfg := true
        any := true }
    else none

def replay (st : Replay) (records : List DurableRecord) : Option Replay :=
  records.foldlM applyRecord st

lemma replay_cons (st : Replay) (r : DurableRecord) (records : List DurableRecord) :
    st.replay (r :: records) = (st.applyRecord r).bind fun next ↦ next.replay records :=
  foldlM_cons

lemma replay_single (st : Replay) (r : DurableRecord) : st.replay [r] = st.applyRecord r := by
  rw [replay_cons]
  exact bind_fun_some _

lemma replay_append (st : Replay) (first second : List DurableRecord) :
    st.replay (first ++ second) = (st.replay first).bind fun next ↦ next.replay second :=
  foldlM_append

lemma exists_replay_of_append {first second : List DurableRecord}
    (h : st.replay (first ++ second) = some st') : ∃ next, st.replay first = some next := by
  rw [replay_append] at h
  obtain ⟨next, hnext, -⟩ := bind_eq_some_iff.mp h
  exact ⟨next, hnext⟩

lemma applyRecord_any (h : st.applyRecord r = some st') : st'.any = true := by
  cases r with
  | recMeta => cases h; rfl
  | recEntry | recTrunc | recSnapshot | recSnapshotDelta | recConfig =>
    rw [applyRecord] at h
    split_ifs at h
    cases h
    rfl

variable {records : List DurableRecord}

lemma replay_any (h : st.replay records = some st')
    (hany : st.any = true ∨ records ≠ []) : st'.any = true := by
  induction records generalizing st with
  | nil =>
    cases h
    exact hany.resolve_right fun hne ↦ hne rfl
  | cons r records ih =>
    rw [replay_cons] at h
    obtain ⟨next, hnext, hrest⟩ := bind_eq_some_iff.mp h
    exact ih hrest (.inl (applyRecord_any hnext))

structure Plain (st : Replay) : Prop where
  repairTo : st.repairTo = 0
  cfgIdx : st.haveCfg = false → st.cfgIdx = 0

lemma Plain.applyRecord (hplain : st.Plain) (h : st.applyRecord r = some st') : st'.Plain := by
  cases r with
  | recMeta => cases h; exact { hplain with }
  | recEntry | recTrunc | recSnapshot | recSnapshotDelta =>
    rw [Replay.applyRecord] at h
    split_ifs at h
    cases h
    exact { hplain with }
  | recConfig =>
    rw [Replay.applyRecord] at h
    split_ifs at h
    cases h
    exact { hplain with cfgIdx := fun hcfg ↦ by cases hcfg }

lemma Plain.replay (hplain : st.Plain) (h : st.replay records = some st') : st'.Plain := by
  induction records generalizing st with
  | nil => cases h; exact hplain
  | cons r records ih =>
    rw [replay_cons] at h
    obtain ⟨next, hnext, hrest⟩ := bind_eq_some_iff.mp h
    exact ih (hplain.applyRecord hnext) hrest

/-! ### Reading a record back -/

lemma readEntry_putEntry {e : LogEntry} (hterm : e.term < 2 ^ 64)
    (hvalue : e.value.length < 2 ^ 32) (rest : List UInt8) :
    readEntry { rest := putEntry e ++ rest } = (e, { rest := rest }) := by
  rw [readEntry, putEntry, append_assoc, u64_putLE _ hterm]
  dsimp only
  rw [str_putStr _ hvalue]

lemma many_readEntry {entries : List LogEntry} (hfits : ∀ e ∈ entries, EntryFits e)
    (hlen : (entries.flatMap putEntry).length < 2 ^ 32) (rest : List UInt8) :
    many readEntry entries.length { rest := entries.flatMap putEntry ++ rest } =
      (entries, { rest := rest }) := by
  refine many_flatMap readEntry putEntry entries (fun e he rest ↦ ?_) rest
  have hle := length_putEntry_le he
  rw [length_putEntry] at hle
  exact readEntry_putEntry (hfits e he) (by omega) rest

variable {members : List NodeId}

lemma many_u64 (hfits : ∀ id ∈ members, id < 2 ^ 64) (rest : List UInt8) :
    many u64 members.length { rest := members.flatMap (putLE 8) ++ rest } =
      (members, { rest := rest }) :=
  many_flatMap u64 (putLE 8) members
    (fun id hid rest ↦ u64_putLE id (hfits id hid) rest true) rest

section Kinds

lemma applyMeta_put {term vote : ℕ} (hterm : term < 2 ^ 64) (hvote : vote < 2 ^ 64) :
    st.applyMeta { rest := putLE 8 term ++ putLE 8 vote } =
      ({ st with term := term, vote := vote }, true) := by
  rw [applyMeta, u64_putLE _ hterm, ← append_nil (putLE 8 vote)]
  dsimp only
  rw [u64_putLE _ hvote]

lemma applyEntry_put {index : ℕ} {e : LogEntry} (hindex : index < 2 ^ 64)
    (hterm : e.term < 2 ^ 64) (hvalue : e.value.length < 2 ^ 32) :
    st.applyEntry { rest := putLE 8 index ++ putEntry e } =
      if index = st.length + 1 then ({ st with log := st.log ++ [e] }, true) else (st, false) := by
  rw [applyEntry, u64_putLE _ hindex, ← append_nil (putEntry e)]
  dsimp only
  rw [readEntry_putEntry hterm hvalue]
  by_cases hnext : index = st.length + 1 <;> simp [hnext]

lemma applyTrunc_put {newLen : ℕ} (hlen : newLen < 2 ^ 64) :
    st.applyTrunc { rest := putLE 8 newLen } =
      if newLen ≤ st.length ∧ st.base ≤ newLen then
        ({ st with log := st.log.take (newLen - st.base) }, true)
      else (st, false) := by
  rw [applyTrunc, ← append_nil (putLE 8 newLen), u64_putLE _ hlen]
  dsimp only
  by_cases hcut : newLen ≤ st.length ∧ st.base ≤ newLen
  · rw [if_pos hcut, if_neg (by omega)]
  · rw [if_neg hcut, if_pos (by omega)]

lemma applySnapshot_put {lii len : ℕ} {state : List LogEntry} (hlii : lii < 2 ^ 64)
    (hfits : ∀ e ∈ state, EntryFits e) (hlen : state.length ≤ len)
    (hbytes : (state.flatMap putEntry).length < 2 ^ 32) (hcount : state.length < 2 ^ 32) :
    st.applySnapshot len
        { rest := putLE 8 lii ++ (putLE 4 state.length ++ state.flatMap putEntry) } =
      if st.base ≤ lii ∧ state.length = lii then
        ({ st with base := lii, state := state, log := st.kept lii }, true)
      else (st, false) := by
  rw [applySnapshot, u64_putLE _ hlii]
  dsimp only
  rw [u32_putLE _ hcount, ← append_nil (state.flatMap putEntry)]
  dsimp only
  rw [many_readEntry hfits hbytes, if_neg (by simp; omega)]
  by_cases hbase : st.base ≤ lii ∧ state.length = lii
  · rw [if_pos hbase, if_neg (by simp; omega)]
  · rw [if_neg hbase, if_pos (by simp; omega)]

lemma applySnapshotDelta_put {fromBase toBase len : ℕ} {delta : List LogEntry}
    (hfrom : fromBase < 2 ^ 64) (hto : toBase < 2 ^ 64)
    (hfits : ∀ e ∈ delta, EntryFits e) (hlen : delta.length ≤ len)
    (hbytes : (delta.flatMap putEntry).length < 2 ^ 32) (hcount : delta.length < 2 ^ 32) :
    st.applySnapshotDelta len
        { rest := putLE 8 fromBase ++
            (putLE 8 toBase ++ (putLE 4 delta.length ++ delta.flatMap putEntry)) } =
      if fromBase = st.base ∧ fromBase ≤ toBase ∧ delta.length = toBase - fromBase then
        ({ st with base := toBase, state := st.state ++ delta, log := st.kept toBase }, true)
      else (st, false) := by
  rw [applySnapshotDelta, u64_putLE _ hfrom]
  dsimp only
  rw [u64_putLE _ hto]
  dsimp only
  rw [u32_putLE _ hcount, ← append_nil (delta.flatMap putEntry)]
  dsimp only
  rw [many_readEntry hfits hbytes]
  by_cases hchain : fromBase = st.base ∧ fromBase ≤ toBase ∧ delta.length = toBase - fromBase
  · rw [if_pos hchain, if_neg (by simp; omega), if_neg (by simp)]
  · rw [if_neg hchain, if_pos (by simp; omega)]

lemma applyConfig_put {cidx len : ℕ} (hidx : cidx < 2 ^ 64)
    (hfits : ∀ id ∈ members, id < 2 ^ 64) (hlen : members.length ≤ len)
    (hcount : members.length < 2 ^ 32) :
    st.applyConfig len
        { rest := putLE 8 cidx ++ (putLE 4 members.length ++ members.flatMap (putLE 8)) } =
      if cidx ≠ 0 ∧ cidx ≤ st.chain.length then
        ({ st with
            chain := (st.chain ++ replicate (cidx + 1 - st.chain.length) []).set cidx members
            cfgIdx := max st.cfgIdx cidx
            haveCfg := true }, true)
      else (st, false) := by
  rw [applyConfig, u64_putLE _ hidx]
  dsimp only
  rw [u32_putLE _ hcount, ← append_nil (members.flatMap (putLE 8))]
  dsimp only
  rw [many_u64 hfits, if_neg (by simp; omega)]
  by_cases hchain : cidx ≠ 0 ∧ cidx ≤ st.chain.length
  · rw [if_pos hchain, if_neg (by simp; omega)]
  · rw [if_neg hchain, if_pos (by simp; omega)]

end Kinds

variable {fields : List UInt8}

lemma applyBody_cons (kind : UInt8) {next : Replay} {ok : Bool}
    (h : st.applyKind kind.toNat (fields.length + 1) { rest := fields } = (next, ok)) :
    st.applyBody (kind :: fields) =
      if ok then ({ next with any := true }, true) else (next, false) := by
  rw [applyBody, u8_cons, length_cons]
  dsimp only
  rw [h]

lemma applyBody_of_ite (kind : UInt8) {accepts : Prop} [Decidable accepts] {next : Replay}
    (h : st.applyKind kind.toNat (fields.length + 1) { rest := fields } =
      if accepts then (next, true) else (st, false)) :
    st.applyBody (kind :: fields) =
      match if accepts then some { next with any := true } else none with
      | some next => (next, true)
      | none => (st, false) := by
  by_cases haccepts : accepts
  · rw [if_pos haccepts] at h ⊢
    rw [applyBody_cons kind h, if_pos rfl]
  · rw [if_neg haccepts] at h ⊢
    rw [applyBody_cons kind h, if_neg Bool.false_ne_true]

section Dispatch

variable (len : ℕ) (fields : Reader)

lemma applyKind_meta : st.applyKind (UInt8.toNat 1) len fields = st.applyMeta fields := rfl

lemma applyKind_entry : st.applyKind (UInt8.toNat 2) len fields = st.applyEntry fields := rfl

lemma applyKind_trunc : st.applyKind (UInt8.toNat 3) len fields = st.applyTrunc fields := rfl

lemma applyKind_snapshot :
    st.applyKind (UInt8.toNat 4) len fields = st.applySnapshot len fields := rfl

lemma applyKind_config :
    st.applyKind (UInt8.toNat 5) len fields = st.applyConfig len fields := rfl

lemma applyKind_snapshotDelta :
    st.applyKind (UInt8.toNat 6) len fields = st.applySnapshotDelta len fields := rfl

end Dispatch

lemma applyBody_body (hr : r.Recoverable) :
    st.applyBody r.body =
      match st.applyRecord r with
      | some next => (next, true)
      | none => (st, false) := by
  obtain ⟨hfits, hread⟩ := hr
  have hlimit := limit_lt
  rw [Readable] at hread
  have hentries : ∀ entries : List LogEntry, entries.length ≤ (entries.flatMap putEntry).length :=
    length_le_length_flatMap_put putEntry fun e ↦ by rw [length_putEntry]; omega
  cases r with
  | recMeta term vote =>
    rw [body, applyBody_cons 1 ((applyKind_meta _ _).trans (applyMeta_put hfits.1 hfits.2))]
    rfl
  | recEntry index e =>
    have hvalue : e.value.length < 2 ^ 32 := by
      rw [body, length_cons, length_append, length_putEntry] at hread
      omega
    rw [body, applyBody_of_ite 2
      ((applyKind_entry _ _).trans (applyEntry_put hfits.1 hfits.2 hvalue))]
    rfl
  | recTrunc newLen =>
    rw [body, applyBody_of_ite 3 ((applyKind_trunc _ _).trans (applyTrunc_put hfits))]
    rfl
  | recSnapshot lii state =>
    have hcount := hentries state
    simp only [body, length_cons, length_append, length_putLE] at hread
    rw [body, applyBody_of_ite 4 ((applyKind_snapshot _ _).trans
      (applySnapshot_put hfits.1 hfits.2 (by simp only [length_append]; omega) (by omega)
        (by omega)))]
    rfl
  | recSnapshotDelta fromBase toBase delta =>
    have hcount := hentries delta
    simp only [body, length_cons, length_append, length_putLE] at hread
    rw [body, applyBody_of_ite 6 ((applyKind_snapshotDelta _ _).trans
      (applySnapshotDelta_put hfits.1 hfits.2.1 hfits.2.2 (by simp only [length_append]; omega)
        (by omega) (by omega)))]
    rfl
  | recConfig cidx members =>
    have hcount := length_le_length_flatMap_put (putLE 8)
      (fun id ↦ by rw [length_putLE]; omega) members
    simp only [body, length_cons, length_append, length_putLE] at hread
    rw [body, applyBody_of_ite 5 ((applyKind_config _ _).trans
      (applyConfig_put hfits.1 hfits.2 (by simp only [length_append]; omega) (by omega)))]
    rfl

lemma foldBodies_replay (hrecords : ∀ r ∈ records, r.Recoverable)
    (h : st.replay records = some st') :
    foldBodies applyBody (records.map body) st = (st', true) := by
  induction records generalizing st with
  | nil => exact congrArg (·, true) (some.inj h)
  | cons r records ih =>
    rw [replay_cons] at h
    obtain ⟨next, hnext, hrest⟩ := bind_eq_some_iff.mp h
    rw [map_cons, foldBodies, applyBody_body (hrecords r mem_cons_self), hnext]
    exact ih (forall_mem_cons.mp hrecords).2 hrest

lemma flatMap_bytes (records : List DurableRecord) :
    records.flatMap bytes =
      (records.map body).flatMap (frame crc32) :=
  (flatMap_map body (frame crc32) records).symm

lemma bodies_admitted (hrecords : ∀ r ∈ records, r.Recoverable) :
    ∀ body ∈ records.map DurableRecord.body, 0 < body.length ∧ body.length ≤ kMaxRecord := by
  intro body hbody
  obtain ⟨r, hr, rfl⟩ := mem_map.mp hbody
  exact ⟨r.body_length_pos, (hrecords r hr).2⟩

lemma run_bytes (hrecords : ∀ r ∈ records, r.Recoverable)
    (h : st.replay records = some st') : st.run (records.flatMap DurableRecord.bytes) = st' := by
  rw [run, flatMap_bytes, scan_frames crc32 applyBody scanForward
    DurableRecord.limit_lt _ (bodies_admitted hrecords) (length_le_length_flatMap _ _),
    foldBodies_replay hrecords h]

lemma run_damaged {before : List DurableRecord} (hbefore : ∀ r ∈ before, r.Recoverable)
    (h : st.replay before = some st') (hr : r.Recoverable) {damaged : List UInt8}
    (hlen : damaged.length = r.body.length) (hdiffer : crc32 damaged ≠ crc32 r.body)
    (rest : List UInt8) :
    st.run (before.flatMap bytes ++ (r.damagedBytes damaged ++ rest)) =
      st'.scanForward rest := by
  have hread : readFrame crc32 kMaxRecord (r.damagedBytes damaged ++ rest) =
      .corrupt rest :=
    readFrame_damaged r.body damaged rest hlen r.body_length_pos hr.2
      limit_lt hdiffer
  have hcount := length_le_length_flatMap crc32 (before.map body)
  have hframe : 0 < (r.damagedBytes damaged).length := by
    rw [damagedBytes, length_append, length_append, length_putLE]
    omega
  obtain ⟨spare, hspare⟩ : ∃ spare,
      (before.flatMap bytes ++ (r.damagedBytes damaged ++ rest)).length =
        (before.map body).length + (spare + 1) := by
    refine ⟨(before.flatMap bytes ++ (r.damagedBytes damaged ++ rest)).length -
      (before.map body).length - 1, ?_⟩
    rw [flatMap_bytes, length_append, length_append]
    omega
  rw [run, hspare, flatMap_bytes, scan_frames_append crc32 applyBody scanForward
    limit_lt _ (bodies_admitted hbefore), foldBodies_replay hbefore h, if_pos rfl,
    scan, hread]

end Replay

end Lockstep.Consensus.RaftA
