import Lockstep.Replicated.Replica

/-!
# Applying across restarts

A node that runs, and restarts now and then, with the engine driven by the apply pump alone.

The tables should be those of a fresh engine that executed the applied entries once each. They are
as long as no restart finds anything in the stores (`applied_once_iff`): a restart sets the counter
back to zero and keeps the tables, so that the entries are applied again over what they left.
-/

namespace Lockstep.Replicated

open Library Sql Consensus Replica GuardedRun Engine List

variable {L : Language}

structure NodeView where
  committed : List LogEntry := []
  log : List LogEntry := []
  commitIndex : ℕ := 0
  agrees : log.take commitIndex <+: committed := by decide

def NodeView.advance (old new : NodeView) : NodeView :=
  if old.committed <+: new.committed then new else old

structure Site (L : Language) where
  view : NodeView := {}
  replica : Replica L

inductive SiteEvent where
  | consensus (view : NodeView)
  | pump
  | restart (view : NodeView)

namespace Site

variable (reprime : List Write → L.Mem)

def step (s : Site L) : SiteEvent → Site L
  | .consensus view => { s with view := s.view.advance view }
  | .pump => { s with replica := s.replica.applyPump s.view.log s.view.commitIndex }
  | .restart view =>
    { view := s.view.advance view
      replica := .boot reprime s.replica.engine.db s.replica.engine.catalogDb }

def start : Site L := { replica := .boot reprime .new .new }

end Site

def tables (e : Engine L) : List Write × List Write := (e.db.writes, e.catalogDb.writes)

variable (batches : List (List Write))

lemma foldl_commitBatch_writes (db : Query.Database) :
    db.writes <+: (batches.foldl (fun db kvs ↦ commitBatch db kvs false) db).writes := by
  induction batches generalizing db with
  | nil => exact prefix_refl _
  | cons kvs batches ih => exact (Pg.Later.commitBatch db kvs false).trans (ih _)

lemma foldl_commitWrites_catalog (e : Engine L) :
    (batches.foldl commitWrites e).catalogDb = e.catalogDb := by
  induction batches generalizing e with
  | nil => rfl
  | cons kvs batches ih =>
    rw [foldl_cons, ih]
    unfold commitWrites
    split_ifs <;> rfl

structure Keeps (e e' : Engine L) : Prop where
  data : e.db.writes <+: e'.db.writes
  catalog : e.catalogDb.writes <+: e'.catalogDb.writes

namespace Keeps

variable (e : Engine L)

lemma refl : Keeps e e := ⟨prefix_refl _, prefix_refl _⟩

lemma trans {e e' e'' : Engine L} (h : Keeps e e') (h' : Keeps e' e'') : Keeps e e'' :=
  ⟨h.data.trans h'.data, h.catalog.trans h'.catalog⟩

lemma execControl_catalog (c : Control) : (e.execControl c).2.catalogDb = e.catalogDb := by
  cases c with
  | begin | rollback | savepoint =>
    simp only [execControl]
    split_ifs <;> rfl
  | commit =>
    simp only [execControl, commitWrites]
    split_ifs <;> rfl
  | rollbackTo | release =>
    simp only [execControl]
    split_ifs
    · rfl
    · split <;> rfl

lemma exec (sql : Text) : Keeps e (e.exec sql).2 := by
  refine ⟨(Pg.Later.exec e sql).writes, ?_⟩
  unfold Engine.exec Engine.execPrepared
  cases parseSql L sql with
  | error msg => exact prefix_refl _
  | ok st =>
    cases st with
    | control c =>
      show e.catalogDb.writes <+: (e.execControl c).2.catalogDb.writes
      rw [execControl_catalog]
    | other s =>
      show e.catalogDb.writes <+: ((L.run s [] e.mem e.view).catalog.foldl
        (fun db kvs ↦ commitBatch db kvs false) _).writes
      rw [foldl_commitWrites_catalog]
      exact foldl_commitBatch_writes _ _

lemma executeAll (entries : List LogEntry) : Keeps e (executeAll e entries) :=
  foldlRecOn entries _ (refl e) fun e' h _ _ ↦ h.trans (exec e' _)

end Keeps

/-! ### Runs -/

namespace Site

variable (reprime : List Write → L.Mem)

def AppliedOnce (s : Site L) : Prop :=
  tables s.replica.engine =
    tables (executeAll (start reprime).replica.engine
      (s.view.committed.take s.replica.applied))

def RestartsEmpty (s : Site L) : SiteEvent → Prop
  | .restart _ => tables s.replica.engine = ([], [])
  | _ => True

structure Replayed (s : Site L) : Prop where
  engine : s.replica.engine =
    executeAll (start reprime).replica.engine (s.view.committed.take s.replica.applied)
  applied_le : s.replica.applied ≤ s.view.committed.length

end Site

lemma NodeView.advance_committed (old new : NodeView) :
    old.committed <+: (old.advance new).committed := by
  unfold advance
  split_ifs with h
  · exact h
  · exact prefix_refl _

lemma recover_of_nil {db : Query.Database} (h : db.writes = []) : db.recover = {} := by
  obtain ⟨writes, synced, snap, hsynced, hlast⟩ := db
  cases h
  rfl

namespace Site

variable {reprime : List Write → L.Mem} {s : Site L}

lemma keeps_step (s : Site L) (event : SiteEvent) :
    Keeps s.replica.engine (s.step reprime event).replica.engine := by
  cases event with
  | consensus view => exact Keeps.refl _
  | pump =>
    show Keeps s.replica.engine (s.replica.applyPump _ _).engine
    rw [applyPump_engine]
    exact Keeps.executeAll _ _
  | restart view => exact ⟨prefix_refl _, prefix_refl _⟩

lemma keeps_run (s : Site L) (events : List SiteEvent) :
    Keeps s.replica.engine (run (step reprime) s events).replica.engine :=
  run_keeps (fun s' : Site L ↦ Keeps s.replica.engine s'.replica.engine)
    (fun s' event h ↦ h.trans (keeps_step s' event)) (Keeps.refl _) events

lemma Replayed.start : (start reprime).Replayed reprime := ⟨rfl, Nat.le_refl 0⟩

lemma Replayed.appliedOnce (h : s.Replayed reprime) : s.AppliedOnce reprime :=
  congrArg tables h.engine

lemma Replayed.pump (h : s.Replayed reprime) : (s.step reprime .pump).Replayed reprime := by
  obtain ⟨rest, hrest⟩ := s.view.agrees
  have hle : (s.view.log.take s.view.commitIndex).length ≤ s.view.committed.length := by
    rw [← hrest, length_append]
    omega
  by_cases hbehind : s.replica.applied ≤ (s.view.log.take s.view.commitIndex).length
  · have happlied : (s.replica.applyPump s.view.log s.view.commitIndex).applied =
        (s.view.log.take s.view.commitIndex).length := by
      rw [applyPump, foldl_applyEntry_applied, length_drop]
      omega
    refine ⟨?_, happlied.trans_le hle⟩
    show (s.replica.applyPump _ _).engine =
      executeAll _ (s.view.committed.take (s.replica.applyPump _ _).applied)
    rw [applyPump_engine, happlied, h.engine, executeAll, executeAll, ← foldl_append]
    congr 1
    rw [← hrest, take_append_of_le_length hbehind, take_append_drop, take_left]
  · -- the commit index of the node is behind what it has applied
    have hnone : s.replica.applyPump s.view.log s.view.commitIndex = s.replica := by
      rw [applyPump, drop_of_length_le (Nat.le_of_not_le hbehind)]
      rfl
    show Replayed reprime { s with replica := s.replica.applyPump _ _ }
    rw [hnone]
    exact h

lemma Replayed.step (h : s.Replayed reprime) {event : SiteEvent}
    (hevent : s.RestartsEmpty event) : (s.step reprime event).Replayed reprime := by
  cases event with
  | consensus view =>
    obtain ⟨rest, hrest⟩ := s.view.advance_committed view
    refine ⟨?_, ?_⟩
    · show s.replica.engine =
        executeAll _ ((s.view.advance view).committed.take s.replica.applied)
      rw [← hrest, take_append_of_le_length h.applied_le]
      exact h.engine
    · exact h.applied_le.trans (s.view.advance_committed view).length_le
  | pump => exact h.pump
  | restart view =>
    obtain ⟨hdata, hcatalog⟩ := Prod.mk.inj hevent
    refine ⟨?_, Nat.zero_le _⟩
    show (boot reprime s.replica.engine.db s.replica.engine.catalogDb).engine =
      (boot reprime {} {}).engine
    unfold boot
    rw [recover_of_nil hdata, recover_of_nil hcatalog, hcatalog]
    rfl

end Site

/-- Every committed statement is applied once, in every state of a run, exactly when no restart
finds anything in the stores. -/
theorem applied_once_iff (reprime : List Write → L.Mem) (events : List SiteEvent) :
    let reached k := run (Site.step reprime) (Site.start reprime) (events.take k)
    ((∀ k, (reached k).AppliedOnce reprime) ∧
      ∀ p q, p ≤ q → Keeps (reached p).replica.engine (reached q).replica.engine) ↔
    Meets (Site.step reprime) Site.RestartsEmpty (Site.start reprime) events := by
  intro reached
  constructor
  · rintro ⟨honce, -⟩
    refine GuardedRun.Meets.of_forall fun k hk ↦ ?_
    have hnext := honce (k + 1)
    simp only [reached, run_take_succ _ hk] at hnext
    cases hevent : events[k] with
    | consensus view => trivial
    | pump => trivial
    | restart view =>
      rw [hevent] at hnext
      exact hnext
  · intro hmeets
    refine ⟨fun k ↦ ?_, fun p q hpq ↦ ?_⟩
    · have htake := (hmeets.between (Nat.le_refl k)).1
      exact (htake.induction (Site.Replayed reprime) (fun _ _ h hevent ↦ h.step hevent)
        Site.Replayed.start).appliedOnce
    · obtain ⟨-, later, -, hlater⟩ := hmeets.between hpq
      simp only [reached, hlater]
      exact Site.keeps_run _ later

def oneCommitted (sql : Text) : NodeView where
  committed := [{ term := 1, value := bytesOf sql }]
  log := [{ term := 1, value := bytesOf sql }]
  commitIndex := 1
  agrees := prefix_refl _

/-- An insert is committed and applied, and the daemon restarts: nothing counts as applied, and the
row is in the table. -/
theorem restart_keeps_row :
    let view := oneCommitted "INSERT INTO t (id) VALUES (1)".toList
    let s : Site OneTable.language :=
      run (Site.step fun _ ↦ ()) (Site.start fun _ ↦ ())
        [.consensus view, .pump, .restart view]
    s.replica.applied = 0 ∧ ¬s.AppliedOnce fun _ ↦ () := by
  have hnone : ∀ {e e' : Engine OneTable.language}, e.db.writes ≠ e'.db.writes →
      tables e ≠ tables e' :=
    fun hne heq ↦ hne (congrArg Prod.fst heq)
  exact ⟨by decide +kernel, hnone (by decide +kernel)⟩

end Lockstep.Replicated
