import Lockstep.Query.PersistentStore
import Lockstep.Transactions.StrictSerialOracle

/-!
# The database behind the server

What a client of `query/Database.hpp` sees of it: the writes of the committed write-sets in the
order in which they were applied, how many of them a completed sync covers, and how many there were
after each write-set.
-/

namespace Lockstep.Query

open Library Storage PersistentStore Transactions.StrictSerialOracle List

open PersistentStore (contents FitsLog Serves)

/-- Committed writes, where each commit ends, and how many are synced. -/
structure Database where
  writes : List (Key × Value) := []
  synced : ℕ := 0
  snap : List ℕ := [0]
  synced_le : synced ≤ writes.length := by decide
  last : snap.getLast? = some writes.length := by decide

namespace Database

def new : Database := {}

def applyCommittedNosync (d : Database) (ws : WriteSet) : Database where
  writes := d.writes ++ ws.entries
  synced := d.synced
  snap := d.snap ++ [(d.writes ++ ws.entries).length]
  synced_le := d.synced_le.trans (by simp)
  last := getLast?_concat

def sync (d : Database) : Database where
  writes := d.writes
  synced := d.writes.length
  snap := d.snap
  synced_le := le_rfl
  last := d.last

def applyCommitted (d : Database) (ws : WriteSet) : Database := (d.applyCommittedNosync ws).sync

def tip (d : Database) : ℕ := d.snap.length - 1

def recover (d : Database) : Database where
  writes := d.writes
  synced := d.writes.length
  snap := if d.writes.length = 0 then [0] else [0, d.writes.length]
  synced_le := le_rfl
  last := by
    split_ifs with hnone
    · rw [hnone]
      rfl
    · rfl

/-! ### Queries -/

def table (writes : List (Key × Value)) : OrderedMap Key Value :=
  (writes.foldl (fun (m : OrderedMap Key Value) kv ↦ m.insert kv.1 kv.2) .empty).filterValues
    (· ≠ deleteSentinel)

inductive Step where
  | point (key : Key)
  | range (lo hi : Key) (hiUnbounded : Bool)
  deriving DecidableEq

inductive StepResult where
  | point (key : Key) (value : Option Value)
  | range (lo hi : Key) (hiUnbounded : Bool) (rows : List (Key × Value))
  deriving DecidableEq

def readStep (m : OrderedMap Key Value) : Step → StepResult
  | .point key => .point key (m.find key)
  | .range lo hi hiUnbounded =>
    .range lo hi hiUnbounded
      (m.entries.filter fun kv ↦ lo ≤ kv.1 && (hiUnbounded || decide (kv.1 < hi)))

structure QuerySpec where
  level : Transactions.Level := .strictSerializable
  snapshotVersion : ℕ := 0
  maxLag : ℕ := 0
  steps : List Step := []
  deriving DecidableEq

def resolvePrefix (q : QuerySpec) (tip replicaLag sessionLastWrite : ℕ) : ℕ :=
  match q.level with
  | .strictSerializable => tip
  | .snapshot => if q.snapshotVersion ≠ 0 ∧ q.snapshotVersion ≤ tip then q.snapshotVersion else tip
  | .boundedStaleness =>
    let lag := if replicaLag ≤ q.maxLag then replicaLag else q.maxLag
    if tip > lag then tip - lag else 0
  | .readYourWrites => if tip > sessionLastWrite then tip else sessionLastWrite

def snapFor (d : Database) (count : ℕ) : ℕ :=
  d.snap.getD (if count < d.snap.length then count else d.snap.length - 1) 0

/-- A query, at the snapshot its level asks for. -/
def run (d : Database) (q : QuerySpec) (replicaLag sessionLastWrite : ℕ := 0) :
    ℕ × List StepResult :=
  let readPrefix := resolvePrefix q d.tip replicaLag sessionLastWrite
  (readPrefix, q.steps.map (readStep (table (d.writes.take (d.snapFor readPrefix)))))

lemma snapFor_tip (d : Database) : d.snapFor d.tip = d.writes.length := by
  obtain ⟨first, hfirst⟩ := getLast?_eq_some_iff.mp d.last
  rw [snapFor, tip, hfirst]
  simp

lemma run_strict (d : Database) (steps : List Step) :
    d.run { steps := steps } = (d.tip, steps.map (readStep (table d.writes))) := by
  show (d.tip, steps.map (readStep (table (d.writes.take (d.snapFor d.tip))))) = _
  rw [snapFor_tip, take_length]

lemma find_table (writes : List (Key × Value)) (key : Key) :
    (table writes).find key = contents writes key := by
  rw [table, OrderedMap.find_filterValues]
  induction writes using reverseRecOn with
  | nil => rfl
  | append_singleton writes kv ih =>
    rw [foldl_append, foldl_cons, foldl_nil, OrderedMap.find_insert, contents_concat, ← ih]
    split_ifs with hkey
    · rw [effect]
      by_cases hdeleted : kv.2 = deleteSentinel
      · simp [hdeleted]
      · simp [hdeleted]
    · rfl

/-! ### The persistent store implements the database -/

/-- The store has the writes of the database, synced as far as the database says, and the same
boundaries. -/
structure Implements (s : PersistentStore) (d : Database) : Prop where
  serves : Serves s (d.writes.take d.synced) (d.writes.drop d.synced)
  snap : s.snap = d.snap

namespace Implements

variable {s : PersistentStore} {d : Database}

lemma start : Implements (injected Script.honest) {} :=
  ⟨Serves.start, rfl⟩

section

variable (h : Implements s d)

include h

lemma applyCommittedNosync (ws : WriteSet) :
    Implements (s.applyCommittedNosync ws) (d.applyCommittedNosync ws) := by
  have hserves := h.serves.call (.applyNosync ws)
  refine ⟨?_, ?_⟩
  · show Serves _ ((d.writes ++ ws.entries).take d.synced) ((d.writes ++ ws.entries).drop d.synced)
    rw [take_append_of_le_length d.synced_le, drop_append_of_le_length d.synced_le]
    exact hserves
  have hlast := hserves.lastSeq
  show s.snap ++ [(applyWrites s.engine ws).lastSeq] = d.snap ++ [_]
  rw [h.snap]
  congr 2
  refine hlast.trans ?_
  rw [addTo]
  simp [← append_assoc]

lemma sync : Implements s.syncDurable d.sync := by
  refine ⟨?_, h.snap⟩
  have hserves := h.serves.call .syncDurable
  rw [addTo, take_append_drop] at hserves
  show Serves _ (d.writes.take d.writes.length) (d.writes.drop d.writes.length)
  rw [take_length, drop_length]
  exact hserves

lemma applyCommitted (ws : WriteSet) :
    Implements (s.applyCommitted ws) (d.applyCommitted ws) := by
  have hsync := (h.applyCommittedNosync ws).sync
  have hlast : (applyWrites s.engine ws).sync.2.lastSeq =
      (applyWrites s.engine ws).lastSeq := by
    have hlogged := (h.serves.call (.applyNosync ws)).toLogged
    exact (hlogged.sync.lastSeq.trans (by rw [append_nil])).trans hlogged.lastSeq.symm
  have heq : s.applyCommitted ws = (s.applyCommittedNosync ws).syncDurable := by
    rw [PersistentStore.applyCommitted, PersistentStore.applyCommittedNosync,
      PersistentStore.syncDurable, hlast]
  rw [heq]
  exact hsync

lemma recover (hsynced : d.synced = d.writes.length) (hfits : FitsLog d.writes) :
    Implements (s.recover s.engine.disk.image.length) d.recover := by
  have hserves := h.serves
  rw [hsynced, take_length, drop_length] at hserves
  have hrecover := hserves.recover hfits
  refine ⟨?_, ?_⟩
  · show Serves _ (d.writes.take d.writes.length) (d.writes.drop d.writes.length)
    rw [take_length, drop_length]
    exact hrecover
  have hlast := hrecover.lastSeq
  rw [append_nil] at hlast
  show (if _ = kNoSeq then _ else _) = if _ = 0 then _ else _
  rw [← hlast]
  rfl

lemma live_eq (key : Key) : s.live key = (table d.writes).find key := by
  rw [h.serves.live_eq, take_append_drop, find_table]

end

end Implements

end Database

/-! ### Submitting a batch -/

open Transactions (Txn ExecConfig RunResult CommitInfo)

def submit (batch : List Txn) (cfg : ExecConfig := {}) : RunResult :=
  Transactions.DeterministicExecutor.submitBatch batch cfg

variable {batch : List Txn}

namespace Serial

open Transactions StrictSerialOracle WorkQueue

structure Plain (t : Txn) : Prop where
  strict : AllStrict t
  footprint : ∀ reads, t.footprintValid (t.outcome reads).extraReads = true

def outcome (s : State) (t : Txn) : Outcome := t.outcome (serveReads s t).1

def advance (s : State) (t : Txn) : State := applyWrites s (outcome s t).writes

def info (s : State) (t : Txn) : CommitInfo :=
  commitInfo { txn := t } (serveReads s t).1 (serveReads s t).2 (outcome s t)
    (advance s t).nextSeqIndex (advance s t).version

def infos (s : State) : List Txn → List CommitInfo
  | [] => []
  | t :: batch => info s t :: infos (advance s t) batch

lemma infos_concat (s : State) (batch : List Txn) (t : Txn) :
    infos s (batch ++ [t]) = infos s batch ++ [info (batch.foldl advance s) t] := by
  induction batch generalizing s with
  | nil => rfl
  | cons first batch ih => exact congrArg (_ :: ·) (ih (advance s first))

lemma drain_plain (cfg : ExecConfig) (hplain : ∀ t ∈ batch, Plain t)
    (s : State) (done : List CommitInfo) {rounds : ℕ} (hrounds : batch.length ≤ rounds) :
    drain (attempt backend cfg) rounds (s, done) (initialQueue batch) =
      ((batch.foldl advance s, done ++ infos s batch), []) := by
  induction batch generalizing s done rounds with
  | nil =>
    rw [infos, append_nil]
    cases rounds <;> rfl
  | cons t batch ih =>
    obtain ⟨rounds, rfl⟩ : ∃ n, rounds = n + 1 := ⟨rounds - 1, by simp at hrounds; omega⟩
    have hattempt : attempt backend cfg (s, done) { txn := t } =
        ((advance s t, done ++ [info s t]), []) := by
      have hvalid := (hplain t mem_cons_self).footprint (serveReads s t).1
      show (if !t.footprintValid (t.outcome (serveReads s t).1).extraReads then _ else _) = _
      rw [hvalid]
      rfl
    have hqueue : initialQueue (t :: batch) = { txn := t } :: initialQueue batch := rfl
    rw [hqueue, drain, hattempt, append_nil,
      ih (forall_mem_cons.mp hplain).2 _ _ (by simpa using hrounds)]
    simp [infos]

end Serial

lemma submit_eq (hplain : ∀ t ∈ batch, Serial.Plain t) (cfg : ExecConfig) :
    (submit batch cfg).commits = Serial.infos {} batch := by
  have hsame : Transactions.DeterministicExecutor.submitBatch batch cfg =
      submitBatch batch cfg :=
    ((Transactions.DeterministicExecutor.simulates_independent cfg).submitBatch_eq
      fun _ _ ↦ trivial).trans
      ((simulates_independent cfg).submitBatch_eq
        fun t ht ↦ (hplain t ht).strict).symm
  have hrounds : batch.length ≤ Transactions.maxRounds batch cfg :=
    Nat.le_mul_of_pos_right _ (Nat.succ_pos _)
  have hdrain := Serial.drain_plain cfg hplain {} [] hrounds
  rw [submit, hsame]
  exact congrArg (fun r ↦ r.1.2) hdrain

lemma submit_last {t : Txn} (hplain : ∀ t' ∈ batch ++ [t], Serial.Plain t') (cfg : ExecConfig) :
    (submit (batch ++ [t]) cfg).commits.getLast? =
      some (Serial.info (batch.foldl Serial.advance {}) t) := by
  rw [submit_eq hplain, Serial.infos_concat, getLast?_concat]

end Lockstep.Query
