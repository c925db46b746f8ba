import Lockstep.Library.GuardedRun
import Lockstep.Library.OrderedMap

/-!
# Columnar tables

A columnar table of `query/sql/Engine.hpp` keeps its rows in three places: the row delta that the
statements write, up to four overlay runs, and the base blocks, in chunks of ascending keys.
-/

namespace Lockstep.Sql.Columnar

open Library

variable {K P Kd Pd : Type} [LinearOrder K]

structure Run (K P : Type) where
  rows : List (K × P)
  tombs : List K

structure Store (K P : Type) [LinearOrder K] where
  base : List (List (K × P)) := []
  zones : ℕ := 0
  runs : List (Run K P) := []
  delta : OrderedMap K (Option P) := .empty

inductive Write (K P : Type) where
  | delta (key : K) (cell : Option (Option P))
  | blocks (start : ℕ) (chunks : List (List (K × P))) (stop : ℕ)
  | run (position : ℕ) (run : Run K P)
  | retireRuns

def Store.apply (s : Store K P) : Write K P → Store K P
  | .delta key (some cell) => { s with delta := s.delta.insert key cell }
  | .delta key none => { s with delta := s.delta.erase key }
  | .blocks start chunks stop =>
    { s with
      base := s.base.take start ++ chunks ++ s.base.drop (max (start + chunks.length) stop),
      zones := start + chunks.length }
  | .run position run => { s with runs := s.runs.take position ++ [run] }
  | .retireRuns => { s with runs := [] }

/-- A columnar table: its store, the earlier versions and the open transaction. -/
structure Table (K P : Type) [LinearOrder K] where
  db : Store K P := {}
  versions : List (Store K P) := []
  txn : Option (List (Write K P)) := none
  deltaDirty : Bool := false
  deltaCount : ℕ := 0
  autoFlushRows : ℕ := 0

inductive Origin where
  | delta
  | overlay
  | base
  deriving DecidableEq

def kChunkRows : ℕ := 1024
def kMaxOverlays : ℕ := 4

def chunked {α : Type} (rows : List α) : List (List α) :=
  (List.range ((rows.length + kChunkRows - 1) / kChunkRows)).map fun j ↦
    (rows.drop (j * kChunkRows)).take kChunkRows

namespace Table

def commitWrites (t : Table K P) (writes : List (Write K P)) : Table K P :=
  match t.txn with
  | some buffered => { t with txn := some (buffered ++ writes) }
  | none =>
    if writes.isEmpty then t
    else
      let db := writes.foldl Store.apply t.db
      { t with db := db, versions := t.versions ++ [db] }

def seen (t : Table K P) : Store K P := (t.txn.getD []).foldl Store.apply t.db

def activeRuns (t : Table K P) : List (Run K P) :=
  t.seen.runs.zipIdx.map fun run ↦
    { rows := ((t.db.runs[run.2]?).map Run.rows).getD [], tombs := run.1.tombs }

def settled (base : List (K × P)) (runs : List (Run K P)) : OrderedMap K (Origin × P) :=
  runs.foldl
    (fun m run ↦ run.tombs.foldl OrderedMap.erase
      (run.rows.foldl (fun m row ↦ m.insert row.1 (.overlay, row.2)) m))
    (base.foldl (fun m row ↦ m.insert row.1 (.base, row.2)) .empty)

def overDelta (delta : OrderedMap K (Option P)) (m : OrderedMap K (Origin × P)) :
    OrderedMap K (Origin × P) :=
  delta.entries.foldl
    (fun m kv ↦ match kv.2 with
      | some row => m.insert kv.1 (.delta, row)
      | none => m.erase kv.1)
    m

def buildRows (t : Table K P) (delta : OrderedMap K (Option P)) : List (K × Origin × P) :=
  if !t.deltaDirty && t.activeRuns.isEmpty then
    t.db.base.flatten.map fun row ↦ (row.1, .base, row.2)
  else if t.deltaDirty then (overDelta delta (settled t.db.base.flatten t.activeRuns)).entries
  else (settled t.db.base.flatten t.activeRuns).entries

def findRun (key : K) : List (Run K P) → Option (Option P)
  | [] => none
  | run :: runs =>
    if key ∈ run.tombs then some none
    else match SortedByKey.find Prod.fst key run.rows with
      | some row => some (some row.2)
      | none => findRun key runs

def findBlock (key : K) (base : List (List (K × P))) : Option P :=
  base.findSome? fun chunk ↦ (SortedByKey.find Prod.fst key chunk).map Prod.snd

def readRow (t : Table K P) (key : K) : Option (Origin × P) :=
  match t.seen.delta.find key with
  | some cell => cell.map (.delta, ·)
  | none => match findRun key t.activeRuns.reverse with
    | some cell => cell.map (.overlay, ·)
    | none => (findBlock key t.db.base).map (.base, ·)

def clearDelta (t : Table K P) : List (Write K P) :=
  t.db.delta.entries.map fun kv ↦ .delta kv.1 none

def liveRows (t : Table K P) : List (K × P) :=
  t.db.delta.entries.filterMap fun kv ↦ kv.2.map (kv.1, ·)

def tryIncrementalFlush (t : Table K P) : Option (List (Write K P)) := do
  guard (t.activeRuns = [] ∧ t.seen.zones ≠ 0)
  let chunk ← t.seen.base[t.seen.zones - 1]?
  let last ← chunk.getLast?
  guard (t.db.delta.entries ≠ [] ∧ ∀ kv ∈ t.db.delta.entries, kv.2.isSome ∧ last.1 < kv.1)
  return .blocks t.seen.zones (chunked t.liveRows) 0 :: t.clearDelta

def createOverlayRun (t : Table K P) : Option (List (Write K P)) := do
  guard (t.seen.zones ≠ 0 ∧ t.activeRuns.length < kMaxOverlays ∧ t.db.delta.entries ≠ [])
  let tombs := (t.db.delta.entries.filter fun kv ↦ kv.2.isNone).map Prod.fst
  return .run t.activeRuns.length { rows := t.liveRows, tombs } :: t.clearDelta

def compaction (t : Table K P) : List (Write K P) :=
  let rows := (t.buildRows t.db.delta).map fun row ↦ (row.1, row.2.2)
  .blocks 0 (chunked rows) t.db.base.length :: t.clearDelta ++
    if t.activeRuns.isEmpty then [] else [.retireRuns]

/-- Flushes the delta behind the last block, as an overlay, or by merging all runs. -/
def flushColumnar (t : Table K P) : Table K P :=
  if !t.deltaDirty then t
  else
    let writes := (t.tryIncrementalFlush.or t.createOverlayRun).getD t.compaction
    { t.commitWrites writes with deltaDirty := false, deltaCount := 0 }

def maybeAutoFlush (t : Table K P) : Table K P :=
  if t.autoFlushRows ≠ 0 ∧ t.autoFlushRows ≤ t.deltaCount then t.flushColumnar else t

end Table

/-! ### Statements -/

inductive OnConflict (P : Type) where
  | error
  | nothing
  | update (set : P → P)

/-- What a statement reads of the committed rows: the rows of an `INSERT`, which a query may give,
and the checks of a row. -/
inductive Stmt (K P : Type) where
  | insert (rows : List (K × P) → List (K × P)) (onConflict : OnConflict P)
    (accepts : List (K × P) → List (K × P) → K × P → Bool)
  | update (key : K) (set : P → P)
  | delete (key : K) (accepts : List (K × P) → Bool)

structure Staged (K P : Type) where
  new : List (K × P) := []
  keys : List K := []
  cells : List (K × Option P) := []

def stage (committed : List (K × P)) (find : K → Option P) (onConflict : OnConflict P)
    (accepts : List (K × P) → List (K × P) → K × P → Bool) (staged : Staged K P) (row : K × P) :
    Option (Staged K P) :=
  let staged' : Staged K P := { staged with keys := row.1 :: staged.keys }
  if row.1 ∈ staged.keys then none
  else match find row.1, onConflict with
    | some _, .error => none
    | some _, .nothing => some staged'
    | some old, .update set =>
      some { staged' with cells := staged.cells ++ [(row.1, some (set old))] }
    | none, _ =>
      if accepts committed staged.new row then
        some { staged' with
          new := staged.new ++ [row], cells := staged.cells ++ [(row.1, some row.2)] }
      else none

def Stmt.cells (committed : List (K × P)) (find : K → Option P) :
    Stmt K P → Option (List (K × Option P))
  | .insert rows onConflict accepts =>
    ((rows committed).foldlM (stage committed find onConflict accepts) {}).map Staged.cells
  | .update key set => (find key).map fun old ↦ [(key, some (set old))]
  | .delete key accepts =>
    if accepts committed then (find key).map fun _ ↦ [(key, none)] else none

def cellWrites (cells : List (K × Option P)) : List (Write K P) :=
  cells.map fun cell ↦ .delta cell.1 (some cell.2)

namespace Table

def cells (t : Table K P) (stmt : Stmt K P) : Option (List (K × Option P)) :=
  stmt.cells ((t.buildRows t.db.delta).map fun row ↦ (row.1, row.2.2)) fun key ↦
    (t.readRow key).map Prod.snd

def noteWrites (t : Table K P) (count : ℕ) : Table K P :=
  { t with deltaDirty := t.deltaDirty || decide (0 < count), deltaCount := t.deltaCount + count }

/-- One statement, inside or outside a transaction. -/
def exec (t : Table K P) (stmt : Stmt K P) : Table K P :=
  match t.cells stmt with
  | none => t
  | some cells => ((t.commitWrites (cellWrites cells)).noteWrites cells.length).maybeAutoFlush

def begin (t : Table K P) : Table K P := { t with txn := some [] }

def commit (t : Table K P) : Table K P := { t with txn := none }.commitWrites (t.txn.getD [])

def rollback (t : Table K P) : Table K P := { t with txn := none }

end Table

end Lockstep.Sql.Columnar
