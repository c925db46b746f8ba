import Lockstep.Transactions.Transaction

/-!
# The history executor

The second executor (`txn/IndependentExecutor.hpp`) keeps the history of commits and nothing else.
It serves a read at a level by choosing a number of commits and going through that many of them,
where the last write of the key wins (`valueAtPrefix`).
-/

namespace Lockstep.Transactions.IndependentExecutor

open Library
open List

/-- The independent implementation keeps the whole history. -/
structure HistoryLog where
  entries : List (ℕ × WriteSet) := []
  sessionLastWrite : ℕ × Key → Option ℕ := fun _ ↦ none

namespace HistoryLog

def commitCount (log : HistoryLog) : ℕ := log.entries.length

def append (log : HistoryLog) (t : Txn) (writes : WriteSet) : ℕ × HistoryLog :=
  let version := log.entries.length + 1
  (version,
    { entries := log.entries ++ [(t.id, writes)]
      sessionLastWrite := noteSessionWrites t writes version log.sessionLastWrite })

def valueAfter (k : Key) (history : List (ℕ × WriteSet)) : ReadResult :=
  history.foldl
    (fun v entry ↦
      match entry.2.find k with
      | some written => some written
      | none => v)
    none

def valueAtPrefix (log : HistoryLog) (k : Key) (p : ℕ) : ReadResult :=
  let limit := if p < log.entries.length then p else log.entries.length
  valueAfter k (log.entries.take limit)

def lastWriteOf (log : HistoryLog) (session : ℕ) (key : Key) : ℕ :=
  (log.sessionLastWrite (session, key)).getD kNoSeq

end HistoryLog

def choosePrefix (r : Read) (serial : ℕ) (cfg : ExecConfig) (log : HistoryLog) (l : ReadLoop) :
    ℕ × ReadLoop :=
  match r.level with
  | .strictSerializable => (serial, l)
  | .snapshot =>
    let l :=
      if !l.snapshotFixed then
        { l with
          snapshotVersion :=
            if r.snapshotVersion ≠ kNoSeq ∧ r.snapshotVersion ≤ serial then r.snapshotVersion
            else serial
          snapshotFixed := true }
      else l
    (l.snapshotVersion, l)
  | .boundedStaleness =>
    let lag := cfg.replicaLag
    (if serial > lag then serial - lag else 0, l)
  | .readYourWrites =>
    let own := log.lastWriteOf r.session r.key
    (if own ≠ kNoSeq ∧ serial < own then own else serial, l)

def serveRead (cfg : ExecConfig) (log : HistoryLog) (t : Txn) (l : ReadLoop) (r : Read) :
    ReadLoop :=
  let (version, l) := choosePrefix r log.commitCount cfg log l
  l.serve t r version (log.valueAtPrefix r.key version)

def serveReads (cfg : ExecConfig) (log : HistoryLog) (t : Txn) : ReadLoop :=
  t.declaredReads.foldl (serveRead cfg log t) { snapshotVersion := log.commitCount }

def backend : Backend HistoryLog where
  init := {}
  serve cfg log t := ((serveReads cfg log t).reads, (serveReads cfg log t).served)
  commit log t writes :=
    let (version, log) := log.append t writes
    (version, version, log)
  tip log := log.commitCount

/-- The same loop over it. -/
def submitBatch (batch : List Txn) (cfg : ExecConfig) : RunResult :=
  Transactions.submitBatch backend batch cfg

namespace HistoryLog

variable (log : HistoryLog)

lemma valueAtPrefix_eq (k : Key) (p : ℕ) :
    log.valueAtPrefix k p = valueAfter k (log.entries.take p) := by
  rw [valueAtPrefix]
  split_ifs with hlt
  · rfl
  · rw [take_length, take_of_length_le (Nat.not_lt.mp hlt)]

lemma valueAfter_concat (k : Key) (history : List (ℕ × WriteSet)) (id : ℕ) (writes : WriteSet) :
    valueAfter k (history ++ [(id, writes)]) = (writes.find k).or (valueAfter k history) := by
  rw [valueAfter, foldl_append, foldl_cons, foldl_nil]
  cases writes.find k with
  | none | some written => rfl

lemma valueAtPrefix_append (t : Txn) (writes : WriteSet) (k : Key) {p : ℕ}
    (hp : p ≤ log.entries.length) :
    (log.append t writes).2.valueAtPrefix k p = log.valueAtPrefix k p := by
  rw [valueAtPrefix_eq, valueAtPrefix_eq, append, take_append_of_le_length hp]

lemma valueAtPrefix_append_last (t : Txn) (writes : WriteSet) (k : Key) :
    (log.append t writes).2.valueAtPrefix k (log.entries.length + 1) =
      (writes.find k).or (log.valueAtPrefix k log.entries.length) := by
  rw [valueAtPrefix_eq, valueAtPrefix_eq, append, take_length]
  rw [take_of_length_le (by simp), valueAfter_concat]

end HistoryLog

end Lockstep.Transactions.IndependentExecutor
