import Lockstep.Storage.Stream

/-!
# The consistent prefix of a log

Recovery walks a log image record by record, and stops at the first one that does not decode or does
not carry the next sequence number. `replayLog` is that loop of `storage/WalEngine.hpp` without
tables and value log.

`inspectWal` of `storage/Recovery.hpp` walks an image offline and does not look at the numbers.
-/

namespace Lockstep.Storage

open Library RecordStream WalRecord Format WalEngine
open List

def consumed (r : WalRecord) : ℕ :=
  kWalHeaderBytes + (r.key.length + r.value.length) + kWalCrcBytes

def walStart (image : List UInt8) : ℕ :=
  if checkStreamHeader image kWalStreamMagic kWalStreamVersion then kStreamHeaderBytes else 0

structure Replayed where
  records : List WalRecord := []
  pos : ℕ := 0
  deriving DecidableEq

namespace Replayed

def lastSeq (s : Replayed) : Seq := s.records.getLast?.elim kNoSeq Entry.seq

def next (s : Replayed) (r : WalRecord) : Option Replayed :=
  if r.seq = kNoSeq then some { s with pos := s.pos + consumed r }
  else if r.seq ≠ s.records.length + 1 then none
  else some { records := s.records ++ [r], pos := s.pos + consumed r }

end Replayed

def replayLog (image : List UInt8) : Replayed :=
  let body := streamBody image kWalStreamMagic kWalStreamVersion
  scan tryDecode Replayed.next body.length body { pos := walStart image }

structure WalRecordInfo where
  seq : Seq
  type : UInt8
  klen : ℕ
  vlen : ℕ
  offset : ℕ
  deriving DecidableEq

structure WalInspection where
  records : List WalRecordInfo := []
  validPrefixLen : ℕ
  maxSeq : Seq := kNoSeq
  deriving DecidableEq

namespace WalInspection

def next (ins : WalInspection) (r : WalRecord) : Option WalInspection :=
  some
    { records := ins.records ++ [{
        seq := r.seq, type := typeByte r, klen := r.key.length, vlen := r.value.length
        offset := ins.validPrefixLen }]
      validPrefixLen := ins.validPrefixLen + consumed r
      maxSeq := r.seq }

def clean (ins : WalInspection) (image : List UInt8) : Bool := ins.validPrefixLen = image.length

end WalInspection

def inspectWal (image : List UInt8) : WalInspection :=
  let rest := image.drop (walStart image)
  scan tryDecode WalInspection.next rest.length rest { validPrefixLen := walStart image }

/-! ### Numbers that follow one another -/

def Numbered : ℕ → List WalRecord → Prop
  | _, [] => True
  | n, r :: records => r.seq = n + 1 ∧ Numbered (n + 1) records

variable {n : ℕ} {records : List WalRecord}

lemma Numbered.of_prefix {first : List WalRecord} (h : Numbered n records)
    (hfirst : first <+: records) : Numbered n first := by
  induction first generalizing n records with
  | nil => trivial
  | cons r first ih =>
    obtain ⟨rest, rfl⟩ := hfirst
    exact ⟨h.1, ih h.2 (prefix_append first rest)⟩

def counted : List WalRecord → List WalRecord
  | [] => []
  | r :: records => if r.seq = kNoSeq then counted records else r :: counted records

lemma Numbered.counted_eq (h : Numbered n records) : counted records = records := by
  induction records generalizing n with
  | nil => rfl
  | cons r records ih => rw [counted, ih h.2, if_neg (h.1 ▸ n.succ_ne_zero)]

lemma steps_next (s : Replayed) (h : Numbered s.records.length (counted records)) :
    steps Replayed.next records s =
      { records := s.records ++ counted records, pos := s.pos + (records.map consumed).sum } := by
  induction records generalizing s with
  | nil => simp [steps, counted]
  | cons r records ih =>
    rw [counted] at h ⊢
    rw [steps, Replayed.next, map_cons, sum_cons, ← Nat.add_assoc]
    split_ifs at h ⊢ with hzero hgap
    · exact ih _ h
    · exact absurd h.1 hgap
    · exact (ih _ (by simpa using h.2)).trans (by simp)

lemma numbered_of_pos (s : Replayed)
    (h : (steps Replayed.next records s).pos = s.pos + (records.map consumed).sum) :
    Numbered s.records.length (counted records) := by
  induction records generalizing s with
  | nil => trivial
  | cons r records ih =>
    rw [steps, Replayed.next, map_cons, sum_cons, ← Nat.add_assoc] at h
    rw [counted]
    split_ifs at h ⊢ with hzero hgap
    · exact ih { s with pos := s.pos + consumed r } h
    · rw [consumed, kWalHeaderBytes] at h
      dsimp only at h
      omega
    · have hrest := ih _ h
      rw [length_append, length_singleton] at hrest
      exact ⟨not_not.mp hgap, hrest⟩

lemma steps_inspect (ins : WalInspection) :
    (steps WalInspection.next records ins).validPrefixLen =
        ins.validPrefixLen + (records.map consumed).sum ∧
      (steps WalInspection.next records ins).maxSeq =
        records.getLast?.elim ins.maxSeq Entry.seq := by
  induction records generalizing ins with
  | nil => exact ⟨rfl, rfl⟩
  | cons r records ih =>
    rw [steps, WalInspection.next]
    dsimp only
    rw [(ih _).1, (ih _).2, map_cons, sum_cons, Nat.add_assoc]
    exact ⟨rfl, by cases records <;> simp [getLast?_cons]⟩

/-- A log that is cut anywhere replays to exactly the records that lie before the cut. -/
theorem replayLog_take {front : List UInt8} {records : List WalRecord}
    (hfits : ∀ r ∈ records, r.Fits) (hnumbered : Numbered 0 records)
    (hfront : front = [] ∨ front = walHeader) (cut : ℕ) :
    (replayLog ((front ++ records.flatMap encodeRecord).take cut)).records =
      within encodeRecord (cut - front.length) records := by
  have hbefore := hnumbered.of_prefix (within_isPrefix encodeRecord (cut - front.length) records)
  rw [replayLog, scan_streamBody_take _ hfits hfront cut,
    steps_next _ (hbefore.counted_eq.symm ▸ hbefore), hbefore.counted_eq, nil_append]

/-- The second of two records is cut. -/
theorem replayLog_take_two :
    (replayLog ((walHeader ++ [⟨1, [7], [1], false, false⟩, ⟨2, [7], [], true, false⟩].flatMap
      encodeRecord).take 58)).records = [⟨1, [7], [1], false, false⟩] := by
  refine (replayLog_take ?_ (by simp [Numbered]) (.inr rfl) 58).trans (by decide +kernel)
  intro r hr
  rcases mem_pair.mp hr with rfl | rfl <;> exact ⟨by decide, by decide, by decide, by decide⟩

/-- A delete that claims to be a pointer is read back as a delete only. -/
theorem replayLog_deletedPointer :
    (replayLog (encodeRecord ⟨1, [7], [], true, true⟩)).records = [⟨1, [7], [], true, false⟩] := by
  decide +kernel

/-! ### The inspector -/

def decodable (image : List UInt8) : List WalRecord :=
  front tryDecode (image.drop (walStart image)).length (image.drop (walStart image))

lemma front_streamBody (image : List UInt8) :
    front tryDecode (streamBody image kWalStreamMagic kWalStreamVersion).length
      (streamBody image kWalStreamMagic kWalStreamVersion) = decodable image := by
  rw [decodable]
  cases hcheck : checkStreamHeader image kWalStreamMagic kWalStreamVersion with
  | true =>
    have hhead : kStreamHeaderBytes ≤ image.length ∧ getU32 image 0 = kWalStreamMagic := by
      rw [checkStreamHeader] at hcheck
      split_ifs at hcheck with hshort hmagic
      exact ⟨not_lt.mp hshort, not_not.mp hmagic⟩
    simp [streamBody, hhead, hcheck, walStart]
  | false =>
    simp only [streamBody, hcheck, walStart, Bool.not_false, if_true, Bool.false_eq_true, if_false,
      drop_zero]
    split_ifs with hhead
    · -- The version is unknown: recovery refuses the log, and the header is no record.
      have hnone : tryDecode image = none := by
        rw [tryDecode, hhead.2]
        simp [kWalStreamMagic, kWalMagic]
      cases hlength : image.length with
      | zero => rfl
      | succ fuel => simp [front, hnone]
    · rfl

lemma replayLog_eq_steps (image : List UInt8) :
    replayLog image = steps Replayed.next (decodable image) { pos := walStart image } := by
  rw [replayLog, scan_eq_steps, front_streamBody]

/-- The records carry the numbers from 1 on, apart from some without a number, which are not the
last unless they are all. -/
structure InOrder (records : List WalRecord) : Prop where
  numbered : Numbered 0 (counted records)
  last : ∀ r, records.getLast? = some r → r.seq = kNoSeq → counted records = []

lemma pos_of_mem_counted {r : WalRecord} (hr : r ∈ counted records) : kNoSeq < r.seq := by
  induction records with
  | nil => cases hr
  | cons d records ih =>
    rw [counted] at hr
    split_ifs at hr with hzero
    · exact ih hr
    · rcases mem_cons.mp hr with rfl | hr
      · exact Nat.pos_of_ne_zero hzero
      · exact ih hr

lemma counted_append (first second : List WalRecord) :
    counted (first ++ second) = counted first ++ counted second := by
  induction first with
  | nil => rfl
  | cons r first ih =>
    rw [cons_append, counted, counted, ih]
    split_ifs <;> rfl

lemma last_seq_iff (records : List WalRecord) :
    records.getLast?.elim kNoSeq Entry.seq = (counted records).getLast?.elim kNoSeq Entry.seq ↔
      ∀ r, records.getLast? = some r → r.seq = kNoSeq → counted records = [] := by
  rcases eq_nil_or_concat' records with rfl | ⟨first, r, rfl⟩
  · simp [counted]
  rw [counted_append, getLast?_concat]
  by_cases hzero : r.seq = kNoSeq
  · cases hlast : (counted first).getLast? with
    | none => simp_all [counted]
    | some d =>
      have hd := (pos_of_mem_counted (mem_of_getLast? hlast)).ne
      have hne : counted first ≠ [] := by rintro hnil; simp [hnil] at hlast
      simp [counted, hzero, hlast, hd, hne]
  · simp [counted, hzero]

/-- The inspector reports the prefix that recovery replays exactly when the records stand in
order. -/
theorem inspectWal_agrees_iff (image : List UInt8) :
    ((inspectWal image).validPrefixLen = (replayLog image).pos ∧
        (inspectWal image).maxSeq = (replayLog image).lastSeq) ↔ InOrder (decodable image) := by
  obtain ⟨hlen, hseq⟩ := @steps_inspect (decodable image) { validPrefixLen := walStart image }
  rw [inspectWal, scan_eq_steps, ← decodable, hlen, hseq, replayLog_eq_steps]
  constructor
  · rintro ⟨hpos, hlast⟩
    have hnumbered := numbered_of_pos _ hpos.symm
    rw [steps_next _ hnumbered] at hlast
    exact ⟨hnumbered, (last_seq_iff _).mp hlast⟩
  · intro h
    rw [steps_next { pos := walStart image } h.numbered]
    exact ⟨rfl, (last_seq_iff _).mpr h.last⟩

/-- A log whose first record has the number 2. -/
theorem inspectWal_passes_gap :
    (inspectWal (encodeRecord ⟨2, [7], [], false, false⟩)).validPrefixLen = 26 ∧
      (replayLog (encodeRecord ⟨2, [7], [], false, false⟩)).pos = 0 := by
  decide +kernel

def rebuilt (e : WalEngine) (records : List WalRecord) : Replay :=
  records.foldl (fun s r ↦ ⟨s.mem.insert r, max s.lastSeq r.seq, s.expect + 1⟩)
    ⟨e.mem.clear, e.lastSeq, 1⟩

lemma rebuilt_concat (e : WalEngine) (records : List WalRecord) (r : WalRecord) :
    rebuilt e (records ++ [r]) = ⟨(rebuilt e records).mem.insert r,
      max (rebuilt e records).lastSeq r.seq, (rebuilt e records).expect + 1⟩ := List.foldl_concat ..

lemma expect_rebuilt (e : WalEngine) (records : List WalRecord) :
    (rebuilt e records).expect = records.length + 1 := by
  induction records using reverseRecOn with
  | nil => rfl
  | append_singleton records r ih => rw [rebuilt_concat, ih, length_append]; rfl

lemma steps_replayRecord_rebuilt {e : WalEngine} (htrunc : e.walTruncSeq = 0)
    (hinline : ∀ r ∈ records, r.vlog = false) (s : Replayed) :
    steps e.replayRecord records (rebuilt e s.records) =
      rebuilt e (steps Replayed.next records s).records := by
  induction records generalizing s with
  | nil => rfl
  | cons r records ih =>
    obtain ⟨hr, hrest⟩ := forall_mem_cons.mp hinline
    have hskip : r.seq ≤ e.walTruncSeq ↔ r.seq = kNoSeq := by rw [htrunc]; exact Nat.le_zero
    simp only [steps, replayRecord, Replayed.next, hskip, expect_rebuilt, hr, Bool.false_eq_true,
      false_and, if_false]
    split_ifs
    · exact ih hrest { s with pos := s.pos + consumed r }
    · rfl
    · rw [← ih hrest, rebuilt_concat, expect_rebuilt]

lemma replayImage_eq_rebuilt (e : WalEngine) (htrunc : e.walTruncSeq = 0) (image : List UInt8)
    (hinline : ∀ r ∈ decodable image, r.vlog = false) :
    e.replayImage image = rebuilt e (replayLog image).records := by
  rw [replayImage, scan_eq_steps, front_streamBody, replayLog_eq_steps,
    ← steps_replayRecord_rebuilt htrunc hinline, htrunc]
  rfl

end Lockstep.Storage
