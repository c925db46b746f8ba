import Lockstep.Consensus.Types
import Lockstep.Pg.BesideTransaction

/-!
# The SQL engine behind a replicated log

The part of a node of `ProdConsensusNode.hpp` that turns committed entries into tables, as
`lockstepd.cpp` wires it.
-/

namespace Lockstep.Replicated

open Library Sql Consensus
open List

variable {L : Language}

def bytesOf (text : Text) : Value := text.map fun c ↦ UInt8.ofNat c.toNat

def textOf (value : Value) : Text := value.map fun b ↦ Char.ofNat b.toNat

def kResults : ℕ := 4096

def boundResults (results : OrderedMap ℕ ExecResult) : OrderedMap ℕ ExecResult :=
  if kResults < results.entries.length then
    ⟨results.entries.tail, List.Pairwise.sublist (List.tail_sublist _) results.sorted⟩
  else results

/-- What a node has applied: how many entries, to which engine, with which results. Next to it stand
all calls of the apply callback with their results. -/
structure Replica (L : Language) where
  applied : ℕ := 0
  engine : Engine L
  results : OrderedMap ℕ ExecResult := .empty
  executed : List (ℕ × Text × ExecResult) := []

namespace Replica

def applyFn (r : Replica L) (index : ℕ) (value : Value) : Replica L :=
  let executed := r.engine.exec (textOf value)
  { r with
    engine := executed.2, results := boundResults (r.results.insert index executed.1),
    executed := r.executed ++ [(index, textOf value, executed.1)] }

def applyEntry (r : Replica L) (e : LogEntry) : Replica L :=
  { r.applyFn (r.applied + 1) e.value with applied := r.applied + 1 }

def applyPump (r : Replica L) (log : List LogEntry) (commitIndex : ℕ) : Replica L :=
  ((log.take commitIndex).drop r.applied).foldl applyEntry r

def boot (reprime : List Write → L.Mem) (db catalogDb : Query.Database) : Replica L where
  engine :=
    { mem := reprime catalogDb.writes, db := db.recover, catalogDb := catalogDb.recover }

@[simp]
lemma applyEntry_applied (r : Replica L) (e : LogEntry) :
    (r.applyEntry e).applied = r.applied + 1 := rfl

lemma foldl_applyEntry_applied (r : Replica L) (entries : List LogEntry) :
    (entries.foldl applyEntry r).applied = r.applied + entries.length := by
  induction entries generalizing r with
  | nil => rfl
  | cons e entries ih =>
    rw [foldl_cons, ih, applyEntry_applied, length_cons]
    omega

def executeAll (e : Engine L) (entries : List LogEntry) : Engine L :=
  entries.foldl (fun e entry ↦ (e.exec (textOf entry.value)).2) e

lemma foldl_applyEntry_engine (r : Replica L) (entries : List LogEntry) :
    (entries.foldl applyEntry r).engine = executeAll r.engine entries := by
  induction entries generalizing r with
  | nil => rfl
  | cons e entries ih => exact ih (r.applyEntry e)

lemma applyPump_engine (r : Replica L) (log : List LogEntry) (commitIndex : ℕ) :
    (r.applyPump log commitIndex).engine =
      executeAll r.engine ((log.take commitIndex).drop r.applied) :=
  foldl_applyEntry_engine r _

end Replica

end Lockstep.Replicated
