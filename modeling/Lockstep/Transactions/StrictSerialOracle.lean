import Lockstep.Transactions.DeterministicExecutor

/-!
# The reference executor

The reference (`txn/Oracle.hpp`) keeps one store and serves every read from it as it stands,
whatever level the read asks for.
-/

namespace Lockstep.Transactions.StrictSerialOracle

open Library IndependentExecutor OrderedMap List
open IndependentExecutor (HistoryLog)

structure State where
  store : OrderedMap Key Value := .empty
  version : ℕ := kNoSeq
  nextSeqIndex : ℕ := 0

def lookup (s : State) (k : Key) : ReadResult := s.store.find k

def makeServed (r : Read) (serialPrefix : ℕ) (v : ReadResult) : ServedRead where
  key := r.key
  level := r.level
  servedVersion := serialPrefix
  session := r.session
  maxLag := r.maxLag
  value := v

def serveReads (s : State) (t : Txn) : ReadView × List ServedRead :=
  t.declaredReads.foldl
    (fun (reads, served) r ↦
      let v := lookup s r.key
      (reads.insert r.key v, served ++ [makeServed r s.version v]))
    (.empty, [])

def applyWrites (s : State) (writes : WriteSet) : State where
  store := writes.entries.foldl (fun store kv ↦ store.insert kv.1 kv.2) s.store
  version := s.version + 1
  nextSeqIndex := s.nextSeqIndex + 1

def backend : Backend State where
  init := {}
  serve _ s t := serveReads s t
  commit s _ writes :=
    let s := applyWrites s writes
    (s.nextSeqIndex, s.version, s)
  tip s := s.version

def submitBatch (batch : List Txn) (cfg : ExecConfig) : RunResult :=
  Transactions.submitBatch backend batch cfg

/-! ### Strict reads -/

def AllStrict (t : Txn) : Prop := ∀ r ∈ t.declaredReads, r.level = .strictSerializable

instance (t : Txn) : Decidable (AllStrict t) := inferInstanceAs (Decidable (∀ r ∈ _, _))

structure Reflects (s : State) (log : HistoryLog) : Prop where
  store : ∀ k, s.store.find k = log.valueAtPrefix k log.entries.length
  version : s.version = log.entries.length
  nextSeqIndex : s.nextSeqIndex = log.entries.length

lemma find_applyWrites (s : State) (writes : WriteSet) (k : Key) :
    (applyWrites s writes).store.find k = (writes.find k).or (s.store.find k) := by
  rw [← writes.foldl_entries_eq, applyWrites]
  generalize s.store = store
  induction writes.entries generalizing store with
  | nil => rfl
  | cons kv entries ih => rw [foldl_cons, ih, find_insert, foldl_cons]

namespace Reflects

variable {s : State} {log : HistoryLog} {cfg : ExecConfig} {t : Txn}

lemma serveReads_eq (h : Reflects s log) (ht : AllStrict t) :
    serveReads s t = ((IndependentExecutor.serveReads cfg log t).reads,
      (IndependentExecutor.serveReads cfg log t).served) := by
  rw [serveReads, IndependentExecutor.serveReads]
  have hfold : ∀ (reads : List Read) (l : ReadLoop),
      (∀ r ∈ reads, r.level = .strictSerializable) →
      reads.foldl
          (fun (reads, served) r ↦ (insert reads r.key (lookup s r.key),
            served ++ [makeServed r s.version (lookup s r.key)])) (l.reads, l.served) =
        ((reads.foldl (serveRead cfg log t) l).reads,
          (reads.foldl (serveRead cfg log t) l).served) := by
    intro reads
    induction reads with
    | nil => exact fun _ _ ↦ rfl
    | cons r reads ih =>
      intro l hstrict
      have hlevel := hstrict r mem_cons_self
      have hserve : serveRead cfg log t l r =
          l.serve t r log.entries.length (lookup s r.key) := by
        rw [serveRead, choosePrefix, hlevel, lookup, h.store]
        rfl
      rw [foldl_cons, foldl_cons, hserve, ← ih _ (forall_mem_cons.mp hstrict).2]
      rw [ReadLoop.serve, if_pos (Or.inl hlevel), makeServed, h.version]
  exact hfold t.declaredReads { snapshotVersion := log.commitCount } ht

lemma commit (h : Reflects s log) (t : Txn) (writes : WriteSet) :
    Reflects (applyWrites s writes) (log.append t writes).2 := by
  have hlength : (log.append t writes).2.entries.length = log.entries.length + 1 := by
    rw [HistoryLog.append, length_append]
    rfl
  refine ⟨fun k ↦ ?_, ?_, ?_⟩
  · rw [hlength, log.valueAtPrefix_append_last, find_applyWrites, h.store]
  · rw [hlength, ← h.version]
    rfl
  · rw [hlength, ← h.nextSeqIndex]
    rfl

end Reflects

lemma simulates_independent (cfg : ExecConfig) :
    backend.Simulates IndependentExecutor.backend cfg AllStrict Reflects where
  init := ⟨fun _ ↦ rfl, rfl, rfl⟩
  serve _ _ _ h ht := h.serveReads_eq ht
  commit s log t writes h _ := by
    have hnext := h.commit t writes
    refine ⟨hnext.nextSeqIndex.trans ?_, hnext.version.trans ?_, hnext⟩
    · rw [HistoryLog.append, length_append]
      rfl
    · rw [HistoryLog.append, length_append]
      rfl
  tip _ _ h := h.version

/-- The two executors return equal results on every batch, and what the reference returns on every
batch of strict reads. -/
theorem executors_agree (batch : List Txn) (cfg : ExecConfig) :
    DeterministicExecutor.submitBatch batch cfg = IndependentExecutor.submitBatch batch cfg ∧
      ((∀ t ∈ batch, AllStrict t) →
        DeterministicExecutor.submitBatch batch cfg = submitBatch batch cfg ∧
          IndependentExecutor.submitBatch batch cfg = submitBatch batch cfg) := by
  have hsame : DeterministicExecutor.submitBatch batch cfg =
      IndependentExecutor.submitBatch batch cfg :=
    (DeterministicExecutor.simulates_independent cfg).submitBatch_eq fun _ _ ↦ trivial
  refine ⟨hsame, fun hstrict ↦ ?_⟩
  have hreference : submitBatch batch cfg = IndependentExecutor.submitBatch batch cfg :=
    (simulates_independent cfg).submitBatch_eq hstrict
  exact ⟨hsame.trans hreference.symm, hreference.symm⟩

def resequenced : List Txn :=
  [{ id := 1
     declaredReads := [{ key := [1] }]
     body := some fun reads ↦
      match reads.find [1] with
      | some (some value) => { writes := empty.insert [2] value }
      | _ => { extraReads := [[2]] } },
   { id := 2
     body := some fun _ ↦ { writes := empty.insert [1] [7] } }]

/-- The first transaction is put back once and commits after the second. -/
theorem executors_agree_resequenced :
    (∀ t ∈ resequenced, AllStrict t) ∧
      (submitBatch resequenced {}).commits.map CommitInfo.txnId = [2, 1] ∧
      DeterministicExecutor.submitBatch resequenced {} = submitBatch resequenced {} :=
  ⟨by decide, by decide, ((executors_agree resequenced {}).2 (by decide)).1⟩

end Lockstep.Transactions.StrictSerialOracle
