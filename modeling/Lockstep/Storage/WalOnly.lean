import Mathlib
import Lockstep.Storage.Sound

/-!
# An engine without tables

The engine over a write-ahead log alone (the first constructor of `storage/WalEngine.hpp`): it never
flushes, so every version is in the memtable. A commit adds one version with the next sequence
number, and a read at a snapshot sees it exactly from that number on (`WalOnly.get_commit`).
-/

namespace Lockstep.Storage.WalEngine

open Library Newest

def walOnly (io : Script) : WalEngine := { lsm := false, io := io }

/-- All versions are in the memtable, inline and with distinct numbers up to the last one. -/
structure WalOnly (e : WalEngine) : Prop where
  lsm : e.lsm = false
  threshold : e.flushThreshold = 0
  tables : e.sstables = []
  mem : Ascending e.mem.entries
  seq_le : ∀ v ∈ e.mem.entries, v.seq ≤ e.lastSeq
  distinct : ∀ v ∈ e.mem.entries, ∀ w ∈ e.mem.entries, v.seq = w.seq → v = w
  plain : ∀ v ∈ e.mem.entries, v.vlog = false

namespace WalOnly

variable {e : WalEngine}

lemma start (io : Script) : (walOnly io).WalOnly where
  lsm := rfl
  threshold := rfl
  tables := rfl
  mem := List.Pairwise.nil
  seq_le := nofun
  distinct := nofun
  plain := nofun

section

variable (h : e.WalOnly)

include h

lemma versions_eq : e.versions = e.mem.entries := by
  rw [versions, h.tables]
  exact List.append_nil _

lemma readable : e.Readable where
  mem := h.mem
  tables := by
    rw [h.tables]
    exact fun t ht ↦ absurd ht List.not_mem_nil

lemma consistent : Consistent e.mem.entries :=
  fun v hv w hw _ hseq ↦ h.distinct v hv w hw hseq

section

variable (key : Key)

lemma get_eq (at_ : Seq) : e.get key at_ = shown (seenAt e.mem.entries key at_) := by
  rw [h.readable.get_eq_bind (by rw [h.versions_eq]; exact h.plain), newestAt, h.versions_eq]
  rfl

section

variable (value : Value)

section

variable (tombstone : Bool)

lemma commit_spec : ∃ landed io d, WrittenTo e.disk e.walStarted
        { seq := e.lastSeq + 1, key := key, value := value, tombstone := tombstone } landed d ∧
      e.commit key value tombstone =
        { e with
          lastSeq := e.lastSeq + 1
          io := io
          disk := d
          walStarted := true
          mem := e.mem.insert
            { seq := e.lastSeq + 1, key := key, value := value, tombstone := tombstone } } ∧
      (e.io = Script.honest → landed = true ∧ io = Script.honest) := by
  have hoff : e.valueLogActive = false := by
    rw [valueLogActive, h.lsm]
    simp
  obtain ⟨landed, io, d, hwritten, heq, hhonest⟩ := e.write_spec_of_off hoff key value tombstone
  refine ⟨landed, io, d, hwritten, ?_, hhonest⟩
  rw [commit_eq, heq, afterInsert]
  dsimp only
  rw [h.threshold, if_neg fun hflush ↦ absurd hflush.1 (Nat.lt_irrefl 0)]

lemma lastSeq_commit : (e.commit key value tombstone).lastSeq = e.lastSeq + 1 := by
  obtain ⟨_, _, _, -, heq, -⟩ := h.commit_spec key value tombstone
  rw [heq]

lemma mem_entries_commit (v : Entry) : v ∈ (e.commit key value tombstone).mem.entries ↔
      v = { seq := e.lastSeq + 1, key := key, value := value, tombstone := tombstone } ∨
        v ∈ e.mem.entries := by
  obtain ⟨_, _, _, -, heq, -⟩ := h.commit_spec key value tombstone
  rw [heq]
  exact Memtable.mem_place

lemma commit : (e.commit key value tombstone).WalOnly := by
  have hmem := h.mem_entries_commit key value tombstone
  have hlast := h.lastSeq_commit key value tombstone
  obtain ⟨_, _, _, -, heq, -⟩ := h.commit_spec key value tombstone
  have hnew : ∀ v ∈ e.mem.entries, v.seq < e.lastSeq + 1 :=
    fun v hv ↦ Nat.lt_succ_of_le (h.seq_le v hv)
  refine ⟨?_, ?_, ?_, ?_, fun v hv ↦ ?_, fun v hv w hw hseq ↦ ?_, fun v hv ↦ ?_⟩
  · rw [heq]
    exact h.lsm
  · rw [heq]
    exact h.threshold
  · rw [heq]
    exact h.tables
  · rw [heq]
    exact Memtable.Ascending.place h.mem fun v hv _ ↦ (hnew v hv).le
  · rw [hlast]
    rcases (hmem v).mp hv with rfl | hold
    · exact le_rfl
    · exact (hnew v hold).le
  · rcases (hmem v).mp hv with rfl | hv
    · rcases (hmem w).mp hw with rfl | hw
      · rfl
      · exact absurd hseq (hnew w hw).ne'
    · rcases (hmem w).mp hw with rfl | hw
      · exact absurd hseq (hnew v hv).ne
      · exact h.distinct v hv w hw hseq
  · rcases (hmem v).mp hv with rfl | hold
    · rfl
    · exact h.plain v hold

lemma get_commit (k : Key) (at_ : Seq) : (e.commit key value tombstone).get k at_ =
      if k = key ∧ e.lastSeq < at_ then (if tombstone then none else some value)
      else e.get k at_ := by
  set record : Entry :=
    { seq := e.lastSeq + 1, key := key, value := value, tombstone := tombstone } with hrecord
  have hmem := h.mem_entries_commit key value tombstone
  have hafter := h.commit key value tombstone
  rw [hafter.get_eq, h.get_eq]
  by_cases hvisible : k = key ∧ e.lastSeq < at_
  · rw [if_pos hvisible]
    have hnewest : seenAt (e.commit key value tombstone).mem.entries k at_ = some record := by
      refine hafter.consistent.newest_eq_some_iff.mpr
        ⟨(hmem _).mpr (.inl rfl), ⟨hvisible.1.symm, hvisible.2⟩, fun w hw _ ↦ ?_⟩
      exact (hafter.seq_le w hw).trans_eq (h.lastSeq_commit key value tombstone)
    rw [hnewest, shown, Option.bind_some]
  · rw [if_neg hvisible]
    -- The new version is not visible, so the visible ones are those there were.
    have hold : ∀ v : Entry, v.VisibleAt k at_ →
        (v ∈ (e.commit key value tombstone).mem.entries ↔ v ∈ e.mem.entries) := by
      intro v hv
      rw [hmem, or_iff_right]
      rintro rfl
      exact hvisible ⟨hv.1.symm, hv.2⟩
    refine congrArg shown (Option.ext fun v ↦ ?_)
    rw [seenAt, seenAt, hafter.consistent.newest_eq_some_iff, h.consistent.newest_eq_some_iff]
    constructor
    · rintro ⟨hv, hvis, hmax⟩
      exact ⟨(hold v hvis).mp hv, hvis, fun w hw hwvis ↦ hmax w ((hold w hwvis).mpr hw) hwvis⟩
    · rintro ⟨hv, hvis, hmax⟩
      exact ⟨(hold v hvis).mpr hv, hvis, fun w hw hwvis ↦ hmax w ((hold w hwvis).mp hw) hwvis⟩

end

end

end

end

end WalOnly

end Lockstep.Storage.WalEngine
