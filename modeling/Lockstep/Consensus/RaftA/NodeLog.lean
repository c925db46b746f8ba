import Lockstep.Consensus.RaftA.Handlers
import Mathlib.Data.List.TakeDrop

/-!
# The compacted log of a node

The accessors of a node read its logical log `logView` when the snapshot holds as many entries as
its base says.
-/

namespace Lockstep.Consensus.RaftA

open Library TermLog List

namespace Node

variable {s : Node}

/-! ### Reading the log -/

section Read

variable (hsnap : s.snapState.length = s.snapBase)
include hsnap

lemma length_logView : s.logView.length = s.llen := by
  rw [logView, length_append, hsnap, llen]

lemma logView_getElem? {i : ℕ} (hpos : 0 < i) (hi : i ≤ s.llen) :
    s.logView[i - 1]? = some (s.entryAt i) := by
  rw [logView, entryAt]
  split_ifs with hbase
  · rw [getElem?_append_left (by omega), getD_eq_getElem?_getD,
      getElem?_eq_getElem (by omega), Option.getD_some]
  have hlog : i - s.snapBase - 1 < s.log.length := by
    rw [llen] at hi
    omega
  rw [getElem?_append_right (by omega), hsnap, getD_eq_getElem?_getD,
    show i - 1 - s.snapBase = i - s.snapBase - 1 by omega, getElem?_eq_getElem hlog,
    Option.getD_some]

lemma termAt_of_getElem? {i : ℕ} (hpos : 0 < i) {e : LogEntry}
    (he : s.logView[i - 1]? = some e) : s.termAt i = e.term := by
  have hi : i ≤ s.llen := by
    have hlt := (List.getElem?_eq_some_iff.mp he).1
    rw [length_logView hsnap] at hlt
    omega
  rw [termAt, if_neg (by omega)]
  rw [logView_getElem? hsnap hpos hi] at he
  rw [Option.some.inj he]

lemma lastLogTerm_eq : s.lastLogTerm = lastTerm s.logView := by
  rw [lastLogTerm]
  have hlen := length_logView hsnap
  split_ifs with hzero
  · have hnil : s.logView = [] := eq_nil_of_length_eq_zero (hlen.trans hzero)
    rw [hnil]
    rfl
  · have hlast := logView_getElem? hsnap (Nat.pos_of_ne_zero hzero) le_rfl
    rw [termAt_of_getElem? hsnap (Nat.pos_of_ne_zero hzero) hlast]
    rw [← hlen] at hlast ⊢
    exact (lastTerm_eq_of_getElem? hlast).symm

lemma entryInBounds_of_le {i : ℕ} (hpos : 0 < i) (hi : i ≤ s.llen) :
    s.entryInBounds i = true := by
  rw [entryInBounds]
  rw [llen] at hi
  split_ifs with hbase
  · exact decide_eq_true (by omega)
  · exact decide_eq_true (by omega)

lemma termInBounds_eq_true (i : ℕ) : s.termInBounds i = true := by
  rw [termInBounds, Bool.or_eq_true]
  by_cases hout : i = 0 ∨ s.llen < i
  · exact .inl (decide_eq_true hout)
  · exact .inr (entryInBounds_of_le hsnap (by omega) (by omega))

lemma batchIndices_inBounds (prevIndex : ℕ) :
    (s.batchIndices prevIndex).all s.entryInBounds = true := by
  rw [all_eq_true]
  intro i hi
  rw [batchIndices, mem_range'_1] at hi
  exact entryInBounds_of_le hsnap (by omega) (by omega)

lemma map_entryAt_batchIndices (prevIndex : ℕ) :
    (s.batchIndices prevIndex).map s.entryAt = (s.logView.drop prevIndex).take kMaxBatch := by
  have hlen := length_logView hsnap
  refine ext_getElem? fun j ↦ ?_
  rw [getElem?_map, batchIndices]
  by_cases hj : j < min (s.llen - prevIndex) kMaxBatch
  · rw [getElem?_range' hj, Option.map_some, Nat.one_mul, getElem?_take_of_lt (by omega),
      getElem?_drop, ← logView_getElem? hsnap (by omega) (by omega)]
    congr 1
    omega
  · rw [getElem?_eq_none (by rw [length_range']; omega), Option.map_none, getElem?_eq_none]
    rw [length_take, length_drop, hlen]
    omega

end Read

/-! ### Appending and merging -/

def entryRecords : ℕ → List LogEntry → List DurableRecord
  | _, [] => []
  | len, e :: entries => .recEntry (len + 1) e :: entryRecords (len + 1) entries

lemma appendAll_eq (s : Node) (entries : List LogEntry) :
    s.appendAll entries =
      { s with
        log := s.log ++ entries
        writeQueue := s.writeQueue ++ entryRecords s.llen entries } := by
  induction entries generalizing s with
  | nil => simp [appendAll, entryRecords]
  | cons e entries ih =>
    rw [appendAll, foldl_cons]
    have hstep := ih ((s.appendEntry e).persistEntry (s.appendEntry e).llen e)
    rw [appendAll] at hstep
    rw [hstep]
    simp [appendEntry, persistEntry, enqueueDurable, entryRecords, llen, Nat.add_assoc]

lemma mergeEntries_eq (s : Node) (m : RaftMsg) :
    ∃ log records, s.mergeEntries m =
      { s with log := log, writeQueue := s.writeQueue ++ records } := by
  rw [mergeEntries]
  dsimp only
  split_ifs
  · rw [appendAll_eq, persistTrunc, enqueueDurable, truncateTo]
    exact ⟨_, _, by rw [append_assoc]⟩
  · rw [appendAll_eq]
    exact ⟨_, _, rfl⟩
  · rw [appendAll_eq]
    exact ⟨_, _, rfl⟩
  · exact ⟨s.log, [], by simp⟩

variable {entries : List LogEntry}

lemma firstConflict_eq_zero {prevIndex : ℕ} {k : ℕ} (hk : 0 < k)
    (h : s.firstConflict prevIndex k entries = 0) {j : ℕ} {e : LogEntry}
    (he : entries[j]? = some e) (hbase : s.snapBase < prevIndex + k + j)
    (hlen : prevIndex + k + j ≤ s.llen) : s.termAt (prevIndex + k + j) = e.term := by
  induction entries generalizing k j with
  | nil => simp at he
  | cons first entries ih =>
    rw [firstConflict] at h
    have hrest : ∀ i, j = i + 1 → s.firstConflict prevIndex (k + 1) entries = 0 →
        s.termAt (prevIndex + k + j) = e.term := by
      rintro i rfl hzero
      rw [getElem?_cons_succ] at he
      have heq : prevIndex + (k + 1) + i = prevIndex + k + (i + 1) := by omega
      have hterm := ih (k := k + 1) (j := i) (Nat.succ_pos k) hzero he (by omega) (by omega)
      rwa [heq] at hterm
    cases j with
    | zero =>
      rw [if_neg (by omega), if_pos (by omega)] at h
      rw [getElem?_cons_zero] at he
      cases he
      by_contra hterm
      rw [Nat.add_zero] at hterm
      rw [if_pos hterm] at h
      omega
    | succ i =>
      refine hrest i rfl ?_
      split_ifs at h
      · exact h
      · omega
      · exact h
      · omega

lemma firstConflict_ne_zero {prevIndex : ℕ} {k : ℕ}
    (h : s.firstConflict prevIndex k entries ≠ 0) :
    ∃ j e, s.firstConflict prevIndex k entries = k + j ∧ entries[j]? = some e ∧
      s.snapBase < prevIndex + k + j ∧ prevIndex + k + j ≤ s.llen ∧
      s.termAt (prevIndex + k + j) ≠ e.term ∧
      ∀ i f, i < j → entries[i]? = some f → s.snapBase < prevIndex + k + i →
        s.termAt (prevIndex + k + i) = f.term := by
  induction entries generalizing k with
  | nil => exact absurd rfl h
  | cons first entries ih =>
    -- a conflict further on is the one found in the tail, and the head agrees or is skipped
    have htail : s.firstConflict prevIndex (k + 1) entries ≠ 0 →
        s.firstConflict prevIndex k (first :: entries) =
          s.firstConflict prevIndex (k + 1) entries →
        (s.snapBase < prevIndex + k → s.termAt (prevIndex + k) = first.term) →
        ∃ j e, s.firstConflict prevIndex k (first :: entries) = k + j ∧
          (first :: entries)[j]? = some e ∧ s.snapBase < prevIndex + k + j ∧
          prevIndex + k + j ≤ s.llen ∧ s.termAt (prevIndex + k + j) ≠ e.term ∧
          ∀ i f, i < j → (first :: entries)[i]? = some f → s.snapBase < prevIndex + k + i →
            s.termAt (prevIndex + k + i) = f.term := by
      intro hne heq hfirst
      obtain ⟨j, e, hj, he, hbase, hlen, hterm, hbefore⟩ := ih hne
      have hshift : ∀ i, prevIndex + (k + 1) + i = prevIndex + k + (i + 1) := fun i ↦ by omega
      rw [hshift] at hbase hlen hterm
      refine ⟨j + 1, e, by omega, he, hbase, hlen, hterm, ?_⟩
      rintro (_ | i) f hi hf hbase'
      · rw [getElem?_cons_zero] at hf
        cases hf
        exact hfirst hbase'
      · have hprev := hbefore i f (by omega) hf (by rw [hshift]; exact hbase')
        rwa [hshift] at hprev
    rw [firstConflict] at h
    split_ifs at h with hskip hlen hterm
    · exact htail h (by rw [firstConflict]; simp [hskip]) fun hbase ↦ absurd hskip (by omega)
    · refine ⟨0, first, by rw [firstConflict]; simp [hskip, hlen, hterm], rfl, by omega, hlen,
        hterm, fun i f hi ↦ absurd hi (Nat.not_lt_zero i)⟩
    · exact htail h (by rw [firstConflict]; simp [hskip, hlen, hterm]) fun _ ↦ not_not.mp hterm
    · exact absurd rfl h

/-- What a merge makes of the whole log. -/
lemma mergeEntries_logView (hsnap : s.snapState.length = s.snapBase) (m : RaftMsg) :
    (s.mergeEntries m).logView =
      if s.firstConflict m.prevLogIndex 1 m.entries ≠ 0 then
        s.logView.take (m.prevLogIndex + s.firstConflict m.prevLogIndex 1 m.entries - 1) ++
          m.entries.drop (s.firstConflict m.prevLogIndex 1 m.entries - 1)
      else if s.llen < m.prevLogIndex + m.entries.length then
        s.logView ++ m.entries.drop (s.llen - m.prevLogIndex)
      else s.logView := by
  rw [mergeEntries]
  dsimp only
  by_cases hconflict : s.firstConflict m.prevLogIndex 1 m.entries ≠ 0
  · obtain ⟨j, e, hj, -, hbase, hlen, -, -⟩ := firstConflict_ne_zero hconflict
    rw [hj] at hconflict ⊢
    have hkeep : m.prevLogIndex + (1 + j) - 1 < s.llen := by omega
    rw [if_pos hconflict, if_pos hconflict, if_pos hkeep, appendAll_eq]
    simp only [logView, persistTrunc, enqueueDurable, truncateTo]
    have hfolded : s.snapState.take (m.prevLogIndex + (1 + j) - 1) = s.snapState :=
      take_of_length_le (by omega)
    rw [take_append, hfolded, hsnap, Nat.max_eq_left (by omega), append_assoc]
  · rw [if_neg hconflict, if_neg hconflict]
    split_ifs
    · rw [appendAll_eq]
      simp [logView]
    · rfl

/-! ### Committing, applying and compacting -/

/-- The downward search finds a position of the own term that a quorum holds, or changes nothing. -/
lemma advanceFrom_eq (hsnap : s.snapState.length = s.snapBase) (k : ℕ) :
    s.advanceFrom k = s ∨ ∃ c, s.commitIndex < c ∧ c ≤ k ∧ s.termAt c = s.currentTerm ∧
      s.quorum ≤ s.agreeCount c ∧ s.advanceFrom k = { s with commitIndex := c } := by
  have haccess : ∀ i, s.access (s.termInBounds i) = s := by
    intro i
    rw [termInBounds_eq_true hsnap, access, Bool.not_true, Bool.or_false]
  induction k with
  | zero => exact .inl rfl
  | succ k ih =>
    have hshorter : s.advanceFrom k = s ∨ ∃ c, s.commitIndex < c ∧ c ≤ k + 1 ∧
        s.termAt c = s.currentTerm ∧ s.quorum ≤ s.agreeCount c ∧
        s.advanceFrom k = { s with commitIndex := c } := by
      rcases ih with hsame | ⟨c, hlt, hle, hrest⟩
      · exact .inl hsame
      · exact .inr ⟨c, hlt, hle.trans (Nat.le_succ k), hrest⟩
    rw [advanceFrom]
    dsimp only
    rw [haccess]
    split_ifs with hdone hterm hquorum
    · exact .inl rfl
    · exact hshorter
    · exact .inr ⟨k + 1, by omega, le_rfl, not_not.mp hterm, hquorum, rfl⟩
    · exact hshorter

lemma access_true (s : Node) : s.access true = s := by
  rw [access, Bool.not_true, Bool.or_false]

lemma persistSnapshot_eq (hlt : s.snapPersistedBase < s.snapBase)
    (hle : s.snapPersistedBase ≤ s.snapState.length) :
    s.persistSnapshot =
      { s with
        writeQueue := s.writeQueue ++ [.recSnapshotDelta s.snapPersistedBase s.snapBase
          (s.snapState.drop s.snapPersistedBase)]
        snapPersistedBase := s.snapBase } := by
  rw [persistSnapshot, if_neg (not_le.mpr hlt), decide_eq_true hle, access_true]
  rfl

lemma takeSnapshot_eq (hsnap : s.snapState.length = s.snapBase)
    (hpersisted : s.snapPersistedBase = s.snapBase) (hlt : s.snapBase < s.appliedIndex)
    (hle : s.appliedIndex ≤ s.llen) :
    s.takeSnapshot =
      { s with
        snapState := s.snapState ++ s.log.take (s.appliedIndex - s.snapBase)
        log := s.log.drop (s.appliedIndex - s.snapBase)
        snapBase := s.appliedIndex
        snapPersistedBase := s.appliedIndex
        writeQueue := s.writeQueue ++ [.recSnapshotDelta s.snapBase s.appliedIndex
          (s.log.take (s.appliedIndex - s.snapBase))] } := by
  have hbound : s.appliedIndex - s.snapBase ≤ s.log.length := by
    rw [llen] at hle
    omega
  have hdrop : (s.snapState ++ s.log.take (s.appliedIndex - s.snapBase)).drop
      s.snapPersistedBase = s.log.take (s.appliedIndex - s.snapBase) := by
    rw [hpersisted, ← hsnap, drop_left]
  rw [takeSnapshot, if_neg (not_le.mpr hlt), decide_eq_true hbound, access_true, persistSnapshot_eq]
  · dsimp only [foldTo]
    rw [hdrop, hpersisted]
  · exact hpersisted.trans_lt hlt
  · change s.snapPersistedBase ≤ (s.snapState ++ s.log.take _).length
    rw [length_append, hsnap, hpersisted]
    exact Nat.le_add_right _ _

lemma applyAndMaybeSnapshot_eq (s : Node) :
    s.applyAndMaybeSnapshot =
      if s.snapBase < max s.appliedIndex s.commitIndex ∧
          s.cfg.snapshotThreshold < s.log.length then
        { s with appliedIndex := max s.appliedIndex s.commitIndex }.takeSnapshot
      else { s with appliedIndex := max s.appliedIndex s.commitIndex } := by
  have happly : (if s.appliedIndex < s.commitIndex then { s with appliedIndex := s.commitIndex }
      else s) = { s with appliedIndex := max s.appliedIndex s.commitIndex } := by
    split_ifs with hlt
    · rw [Nat.max_eq_right hlt.le]
    · rw [Nat.max_eq_left (Nat.le_of_not_lt hlt)]
  rw [applyAndMaybeSnapshot, happly]

lemma maybeStepDown_currentTerm (s : Node) (term : ℕ) :
    (s.maybeStepDown term).currentTerm = max s.currentTerm term := by
  rw [maybeStepDown]
  split_ifs with hlt
  · exact (Nat.max_eq_right hlt.le).symm
  · exact (Nat.max_eq_left (Nat.le_of_not_lt hlt)).symm

lemma maybeStepDown_eq (s : Node) (newTerm : ℕ) :
    ∃ term vote role votes hint records, s.maybeStepDown newTerm =
      { s with
        currentTerm := term, votedFor := vote, role := role, votesGranted := votes,
        leaderHint := hint, writeQueue := s.writeQueue ++ records } := by
  rw [maybeStepDown]
  split_ifs
  · exact ⟨_, _, _, _, _, _, by rw [persistMeta, enqueueDurable, enqueueDurable, append_assoc]⟩
  · exact ⟨_, _, _, _, _, [], by rw [append_nil]⟩

end Node

end Lockstep.Consensus.RaftA
