import Lockstep.Sql.OneTable

/-!
# Group commit in the SQL engine

What a text writes to the data store when syncs are left to somebody else: writes behind those that
are there, and no sync. A statement outside one that succeeds and reports no rows may still have
written (`SilentWrite`).
-/

namespace Lockstep.Sql

open Library Query Engine List

variable {L : Language}

/-- The statement succeeds with no row affected, and writes to the data store: a `COMMIT` of
buffered writes, or another statement outside a transaction. -/
def SilentWrite (e : Engine L) (sql : Text) : Prop :=
  match parseSql L sql with
  | .error _ => False
  | .ok (.control c) => c = .commit ∧ e.inTxn = true ∧ e.txnWrites ≠ []
  | .ok (.other s) =>
    let effect := L.run s [] e.mem e.view
    e.inTxn = false ∧ effect.result.ok = true ∧ effect.result.affected = 0 ∧
      ∃ kvs ∈ effect.batches, kvs ≠ []

structure Appends (e e' : Engine L) : Prop where
  groupCommit : e'.groupCommit = e.groupCommit
  synced : e'.db.synced = e.db.synced
  length_le : e.db.writes.length ≤ e'.db.writes.length

namespace Appends

lemma refl (e : Engine L) : Appends e e := ⟨rfl, rfl, le_rfl⟩

lemma trans {e e' e'' : Engine L} (h : Appends e e') (h' : Appends e' e'') :
    Appends e e'' :=
  ⟨h'.groupCommit.trans h.groupCommit, h'.synced.trans h.synced, h.length_le.trans h'.length_le⟩

end Appends

lemma batchWrites_ne_nil {kvs : List Write} (h : kvs ≠ []) :
    (batchWrites kvs).entries ≠ [] := by
  obtain ⟨first, kv, rfl⟩ := eq_nil_or_concat kvs |>.resolve_left h
  rw [concat_eq_append, batchWrites, foldl_append]
  intro hnil
  have hfind := OrderedMap.find_insert (batchWrites first) kv.1 kv.1 kv.2
  rw [if_pos rfl, OrderedMap.find_eq_some_iff] at hfind
  exact ne_nil_of_mem hfind hnil

section Writes

variable {e : Engine L} (hgroup : e.groupCommit = true)

include hgroup

lemma commitWrites_appends (kvs : List Write) : Appends e (e.commitWrites kvs) := by
  unfold commitWrites
  split_ifs
  · exact ⟨rfl, rfl, le_rfl⟩
  refine ⟨rfl, ?_, ?_⟩
  · show (commitBatch e.db kvs e.groupCommit).synced = _
    rw [commitBatch_eq, hgroup, if_pos rfl]
    split_ifs <;> rfl
  show _ ≤ (commitBatch e.db kvs e.groupCommit).writes.length
  rw [commitBatch_eq, hgroup, if_pos rfl]
  split_ifs
  · exact le_rfl
  · show _ ≤ (e.db.writes ++ _).length
    simp

lemma commitWrites_grows (hout : e.inTxn = false) {kvs : List Write} (hkvs : kvs ≠ []) :
    e.db.writes.length < (e.commitWrites kvs).db.writes.length := by
  have hentries := length_pos_of_ne_nil (batchWrites_ne_nil hkvs)
  simp only [commitWrites, hout, Bool.false_eq_true, if_false]
  rw [commitBatch_eq, if_neg (batchWrites_ne_nil hkvs), hgroup, if_pos rfl]
  show _ < (e.db.writes ++ _).length
  rw [length_append]
  omega

end Writes

lemma commitWrites_inTxn (e : Engine L) (kvs : List Write) :
    (e.commitWrites kvs).inTxn = e.inTxn := by
  unfold commitWrites
  split_ifs <;> rfl

variable {e : Engine L}

lemma commitWrites_db_inside (hin : e.inTxn = true) (kvs : List Write) :
    (e.commitWrites kvs).db = e.db := by
  rw [commitWrites, if_pos hin]

lemma foldl_commitWrites_db_inside (hin : e.inTxn = true)
    (batches : List (List Write)) : (batches.foldl commitWrites e).db = e.db := by
  induction batches generalizing e with
  | nil => rfl
  | cons kvs batches ih =>
    rw [foldl_cons, ih ((commitWrites_inTxn e kvs).trans hin), commitWrites_db_inside hin]

lemma foldl_commitWrites_appends (hgroup : e.groupCommit = true)
    (batches : List (List Write)) : Appends e (batches.foldl commitWrites e) :=
  foldlRecOn batches _ (.refl e) fun _ h kvs _ ↦
    h.trans (commitWrites_appends (h.groupCommit.trans hgroup) kvs)

lemma foldl_commitWrites_grows_iff (hgroup : e.groupCommit = true)
    (hout : e.inTxn = false) (batches : List (List Write)) :
    e.db.writes.length < (batches.foldl commitWrites e).db.writes.length ↔
      ∃ kvs ∈ batches, kvs ≠ [] := by
  induction batches generalizing e with
  | nil => simp
  | cons kvs batches ih =>
    have hfirst := commitWrites_appends hgroup kvs
    have hrest := ih (hfirst.groupCommit.trans hgroup) ((commitWrites_inTxn e kvs).trans hout)
    rw [foldl_cons, exists_mem_cons_iff]
    by_cases hkvs : kvs = []
    · subst hkvs
      rw [commitWrites_nil] at hrest ⊢
      rw [hrest]
      simp
    · have hgrows := commitWrites_grows hgroup hout hkvs
      have happends := foldl_commitWrites_appends (hfirst.groupCommit.trans hgroup) batches
      exact iff_of_true (hgrows.trans_le happends.length_le) (.inl hkvs)

lemma execControl_db {c : Control} (h : ¬(c = .commit ∧ e.inTxn = true ∧ e.txnWrites ≠ [])) :
    (e.execControl c).2.db = e.db ∧ (e.execControl c).2.groupCommit = e.groupCommit := by
  cases c with
  | commit =>
    simp only [execControl]
    split_ifs with hout hwrites
    · exact ⟨rfl, rfl⟩
    · exact absurd ⟨rfl, by simpa using hout, hwrites⟩ h
    · exact ⟨rfl, rfl⟩
  | begin =>
    simp only [execControl]
    split_ifs <;> exact ⟨rfl, rfl⟩
  | rollback =>
    simp only [execControl]
    split_ifs <;> exact ⟨rfl, rfl⟩
  | savepoint name =>
    simp only [execControl]
    split_ifs <;> exact ⟨rfl, rfl⟩
  | rollbackTo name =>
    simp only [execControl]
    split_ifs
    · exact ⟨rfl, rfl⟩
    · split <;> exact ⟨rfl, rfl⟩
  | release name =>
    simp only [execControl]
    split_ifs
    · exact ⟨rfl, rfl⟩
    · split <;> exact ⟨rfl, rfl⟩

lemma execControl_commit (hin : e.inTxn = true) (hwrites : e.txnWrites ≠ []) :
    e.execControl .commit =
      ({}, { e with inTxn := false, savepoints := [], txnWrites := [] }.commitWrites
        e.txnWrites) := by
  simp only [execControl, hin, Bool.not_true, Bool.false_eq_true, if_false]
  rw [if_pos hwrites]

lemma exec_appends (hgroup : e.groupCommit = true) (sql : Text) : Appends e (e.exec sql).2 := by
  unfold exec execPrepared
  cases parseSql L sql with
  | error msg => exact .refl e
  | ok st =>
    cases st with
    | control c =>
      show Appends e (e.execControl c).2
      by_cases hcommit : c = .commit ∧ e.inTxn = true ∧ e.txnWrites ≠ []
      · obtain ⟨rfl, hin, hwrites⟩ := hcommit
        rw [execControl_commit hin hwrites]
        have happends := commitWrites_appends
          (e := { e with inTxn := false, savepoints := [], txnWrites := [] }) hgroup e.txnWrites
        exact ⟨happends.groupCommit, happends.synced, happends.length_le⟩
      · obtain ⟨hdb, hgroup'⟩ := execControl_db hcommit
        exact ⟨hgroup', by rw [hdb], by rw [hdb]⟩
    | other s =>
      have happends := foldl_commitWrites_appends
        (e := { e with mem := (L.run s [] e.mem e.view).mem }) hgroup
        (L.run s [] e.mem e.view).batches
      exact ⟨happends.groupCommit, happends.synced, happends.length_le⟩

lemma silentWrite_iff (hgroup : e.groupCommit = true) (sql : Text) :
    SilentWrite e sql ↔ (e.exec sql).1.ok = true ∧ (e.exec sql).1.affected = 0 ∧
      e.db.writes.length < (e.exec sql).2.db.writes.length := by
  unfold SilentWrite exec execPrepared
  cases parseSql L sql with
  | error msg =>
    refine iff_of_false id ?_
    rintro ⟨-, -, hlt⟩
    exact absurd hlt (lt_irrefl _)
  | ok st =>
    cases st with
    | control c =>
      show (_ ∧ _ ∧ _) ↔ (e.execControl c).1.ok = true ∧ (e.execControl c).1.affected = 0 ∧
        e.db.writes.length < (e.execControl c).2.db.writes.length
      by_cases hcommit : c = .commit ∧ e.inTxn = true ∧ e.txnWrites ≠ []
      · refine iff_of_true hcommit ?_
        obtain ⟨rfl, hin, hwrites⟩ := hcommit
        rw [execControl_commit hin hwrites]
        exact ⟨rfl, rfl, commitWrites_grows
          (e := { e with inTxn := false, savepoints := [], txnWrites := [] }) hgroup rfl hwrites⟩
      · refine iff_of_false hcommit ?_
        rw [(execControl_db hcommit).1]
        rintro ⟨-, -, hlt⟩
        exact absurd hlt (lt_irrefl _)
    | other s =>
      show _ ↔ (L.run s [] e.mem e.view).result.ok = true ∧
        (L.run s [] e.mem e.view).result.affected = 0 ∧ e.db.writes.length <
          ((L.run s [] e.mem e.view).batches.foldl commitWrites
            { e with mem := (L.run s [] e.mem e.view).mem }).db.writes.length
      rcases Bool.eq_false_or_eq_true e.inTxn with hin | hout
      · have hdb := foldl_commitWrites_db_inside
          (e := { e with mem := (L.run s [] e.mem e.view).mem }) hin
          (L.run s [] e.mem e.view).batches
        rw [hdb, hin]
        simp
      · have hgrows := foldl_commitWrites_grows_iff
          (e := { e with mem := (L.run s [] e.mem e.view).mem }) hgroup hout
          (L.run s [] e.mem e.view).batches
        exact ⟨fun h ↦ ⟨h.2.1, h.2.2.1, hgrows.mpr h.2.2.2⟩,
          fun h ↦ ⟨hout, h.1, h.2.1, hgrows.mp h.2.2⟩⟩

end Lockstep.Sql
