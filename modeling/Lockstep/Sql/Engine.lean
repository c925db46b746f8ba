import Lockstep.Sql.Lexer
import Lockstep.Query.Database

/-!
# Transactions of the SQL engine

The layer of `query/sql/Engine.hpp` through which every statement writes. Outside a transaction the
writes of a statement go to the data store as one committed batch, synced at once or left to a later
`sync` under group commit. Between `BEGIN` and `COMMIT` they are kept in a buffer, which `COMMIT`
commits as one batch, `ROLLBACK` drops and `ROLLBACK TO` cuts back.

The statements that are not about transactions are a parameter (`Language`): how their text is
parsed, and what one does, as a function of what it can read.
-/

namespace Lockstep.Sql

open Library Query Storage List

abbrev Write := Key × Value

structure ExecResult where
  ok : Bool := true
  error : String := ""
  affected : ℕ := 0
  rows : List (List (Text × Text)) := []
  deriving DecidableEq

def ExecResult.failure (msg : String) : ExecResult := { ok := false, error := msg }

inductive Control where
  | begin
  | commit
  | rollback
  | savepoint (name : Text)
  | rollbackTo (name : Text)
  | release (name : Text)
  deriving DecidableEq

def lower (text : Text) : Text :=
  text.map fun c ↦ if 'A' ≤ c ∧ c ≤ 'Z' then Char.ofNat (c.toNat + 32) else c

def kwBegin : Text := ['b', 'e', 'g', 'i', 'n']
def kwCommit : Text := ['c', 'o', 'm', 'm', 'i', 't']
def kwRollback : Text := ['r', 'o', 'l', 'l', 'b', 'a', 'c', 'k']
def kwSavepoint : Text := ['s', 'a', 'v', 'e', 'p', 'o', 'i', 'n', 't']
def kwRelease : Text := ['r', 'e', 'l', 'e', 'a', 's', 'e']
def kwTransaction : Text := ['t', 'r', 'a', 'n', 's', 'a', 'c', 't', 'i', 'o', 'n']
def kwWork : Text := ['w', 'o', 'r', 'k']
def kwTo : Text := ['t', 'o']

def isKw (kw : Text) : List Token → Bool
  | .ident text :: _ => lower text == kw
  | _ => false

def skipKw (kws : List Text) (tokens : List Token) : List Token :=
  if kws.any fun kw ↦ isKw kw tokens then tokens.tail else tokens

def expectIdent (what : String) : List Token → Except String (Text × List Token)
  | .ident text :: rest => .ok (text, rest)
  | .bad msg :: _ => .error msg
  | _ => .error ("expected " ++ what)

def endOfStatement {α : Type} (statement : α) (rest : List Token) : Except String α :=
  if rest = [] ∨ rest = [.sym .semi] then .ok statement
  else .error ("unexpected trailing input after statement (one statement per parse; " ++
    "multi-statement is OUT in v1)")

def parseControl (kw : Text) (rest : List Token) : Option (Except String Control) :=
  if kw = kwBegin then some (endOfStatement .begin (skipKw [kwTransaction, kwWork] rest))
  else if kw = kwCommit then some (endOfStatement .commit rest)
  else if kw = kwRollback then
    let rest := skipKw [kwTransaction, kwWork] rest
    some (if isKw kwTo rest then do
        let (name, rest) ←
          expectIdent "a savepoint name after ROLLBACK TO" (skipKw [kwSavepoint] rest.tail)
        endOfStatement (.rollbackTo name) rest
      else endOfStatement .rollback rest)
  else if kw = kwSavepoint then
    some (do
      let (name, rest) ← expectIdent "a savepoint name after SAVEPOINT" rest
      endOfStatement (.savepoint name) rest)
  else if kw = kwRelease then
    some (do
      let (name, rest) ←
        expectIdent "a savepoint name after RELEASE" (skipKw [kwSavepoint] rest)
      endOfStatement (.release name) rest)
  else none

/-- What a statement reads: the committed writes of the data store with the boundaries between
batches, and the buffer of an open transaction. -/
structure View where
  writes : List Write
  snap : List ℕ
  inTxn : Bool
  txnWrites : List Write

/-- What a statement does: its result, the batches it commits in their order and its schema
records. `Mem` is what the engine keeps in memory: the catalog and the caches. -/
structure Effect (Mem : Type) where
  result : ExecResult
  mem : Mem
  batches : List (List Write) := []
  catalog : List (List Write) := []

structure Language where
  Stmt : Type
  Mem : Type
  Datum : Type
  parse : List Token → Except String Stmt
  run : Stmt → List Datum → Mem → View → Effect Mem
  rollbackMem : Mem → Mem

inductive Statement (L : Language) where
  | control (c : Control)
  | other (s : L.Stmt)

def parseSql (L : Language) (sql : Text) : Except String (Statement L) :=
  match tokens sql with
  | .ident text :: rest =>
    match parseControl (lower text) rest with
    | some (.ok c) => .ok (.control c)
    | some (.error msg) => .error msg
    | none => (L.parse (.ident text :: rest)).map .other
  | _ => .error "expected a statement keyword (CREATE/INSERT/UPDATE/DELETE/SELECT)"

/-! ### The engine -/

def batchTxn (kvs : List Write) : Transactions.Txn where
  declaredReads := kvs.map fun kv ↦ { key := kv.1 }
  body := some fun _ ↦
    { writes := kvs.foldl (fun (m : OrderedMap Key Value) kv ↦ m.insert kv.1 kv.2)
        .empty }

def commitBatch (target : Database) (kvs : List Write) (nosync : Bool) : Database :=
  (submit [batchTxn kvs]).commits.foldl
    (fun target c ↦
      if c.status = .committed ∧ c.writesCommitted.entries ≠ [] then
        if nosync then target.applyCommittedNosync c.writesCommitted
        else target.applyCommitted c.writesCommitted
      else target)
    target

def batchWrites (kvs : List Write) : WriteSet :=
  kvs.foldl (fun (m : OrderedMap Key Value) kv ↦ m.insert kv.1 kv.2) .empty

lemma commitBatch_eq (target : Database) (kvs : List Write) (nosync : Bool) :
    commitBatch target kvs nosync =
      if (batchWrites kvs).entries = [] then target
      else if nosync then target.applyCommittedNosync (batchWrites kvs)
      else target.applyCommitted (batchWrites kvs) := by
  have hplain : ∀ t ∈ [batchTxn kvs], Serial.Plain t := by
    intro t ht
    rw [mem_singleton.mp ht]
    refine ⟨fun r hr ↦ ?_, fun reads ↦ rfl⟩
    obtain ⟨kv, -, rfl⟩ := mem_map.mp hr
    rfl
  rw [commitBatch, submit_eq hplain]
  show (if _ = Transactions.Status.committed ∧ (batchWrites kvs).entries ≠ [] then _ else _) = _
  by_cases hnil : (batchWrites kvs).entries = []
  · rw [if_pos hnil, if_neg fun h ↦ h.2 hnil]
  · rw [if_neg hnil, if_pos ⟨rfl, hnil⟩]
    rfl

structure Engine (L : Language) where
  mem : L.Mem
  db : Database := {}
  catalogDb : Database := {}
  groupCommit : Bool := false
  inTxn : Bool := false
  txnWrites : List Write := []
  savepoints : List (Text × ℕ) := []

namespace Engine

variable {L : Language}

def view (e : Engine L) : View := ⟨e.db.writes, e.db.snap, e.inTxn, e.txnWrites⟩

def commitWrites (e : Engine L) (kvs : List Write) : Engine L :=
  if e.inTxn then { e with txnWrites := e.txnWrites ++ kvs }
  else { e with db := commitBatch e.db kvs e.groupCommit }

def savepointAt (e : Engine L) (name : Text) : Option ℕ :=
  (range e.savepoints.length).reverse.find? fun i ↦
    (e.savepoints[i]?.map Prod.fst) == some name

def execControl (e : Engine L) : Control → ExecResult × Engine L
  | .begin =>
    if e.inTxn then (.failure "already in a transaction", e)
    else ({}, { e with inTxn := true, txnWrites := [], savepoints := [] })
  | .commit =>
    if !e.inTxn then (.failure "COMMIT with no active transaction", e)
    else
      let flush := e.txnWrites
      let e := { e with inTxn := false, savepoints := [], txnWrites := [] }
      ({}, if flush ≠ [] then e.commitWrites flush else e)
  | .rollback =>
    if !e.inTxn then (.failure "ROLLBACK with no active transaction", e)
    else ({}, { e with
      inTxn := false, txnWrites := [], savepoints := [], mem := L.rollbackMem e.mem })
  | .savepoint name =>
    if !e.inTxn then (.failure "SAVEPOINT can only be used in a transaction", e)
    else ({}, { e with savepoints := e.savepoints ++ [(name, e.txnWrites.length)] })
  | .rollbackTo name =>
    if !e.inTxn then (.failure "ROLLBACK TO SAVEPOINT with no active transaction", e)
    else match e.savepointAt name with
      | none => (.failure ("no such savepoint: " ++ String.ofList name), e)
      | some i => ({}, { e with
          txnWrites := e.txnWrites.take ((e.savepoints.getD i ([], 0)).2)
          savepoints := e.savepoints.take (i + 1) })
  | .release name =>
    if !e.inTxn then (.failure "RELEASE SAVEPOINT with no active transaction", e)
    else match e.savepointAt name with
      | none => (.failure ("no such savepoint: " ++ String.ofList name), e)
      | some i => ({}, { e with savepoints := e.savepoints.take i })

def execOther (e : Engine L) (params : List L.Datum) (s : L.Stmt) : ExecResult × Engine L :=
  let effect := L.run s params e.mem e.view
  let e := { e with mem := effect.mem }
  let e := effect.batches.foldl commitWrites e
  (effect.result, { e with
    catalogDb := effect.catalog.foldl (fun db kvs ↦ commitBatch db kvs false) e.catalogDb })

def execStatement (e : Engine L) (params : List L.Datum) : Statement L → ExecResult × Engine L
  | .control c => e.execControl c
  | .other s => e.execOther params s

def execPrepared (e : Engine L) (sql : Text) (params : List L.Datum) : ExecResult × Engine L :=
  match parseSql L sql with
  | .ok st => e.execStatement params st
  | .error msg => (.failure msg, e)

def exec (e : Engine L) (sql : Text) : ExecResult × Engine L := e.execPrepared sql []

def sync (e : Engine L) : Engine L := { e with db := e.db.sync }

/-! ### Statements that change nothing -/

def QuietControl (e : Engine L) : Control → Prop
  | .begin => e.inTxn = true
  | .commit => e.inTxn = false
  | .rollback => e.inTxn = false
  | .savepoint _ => e.inTxn = false
  | .rollbackTo name => e.inTxn = false ∨ ∀ i, e.savepointAt name = some i →
      e.txnWrites.length ≤ (e.savepoints.getD i ([], 0)).2 ∧ e.savepoints.length ≤ i + 1
  | .release name => e.inTxn = false ∨ ∀ i, e.savepointAt name = some i → e.savepoints.length ≤ i

/-- The text is refused, or its statement finds nothing to write: no rows, no schema records, no
change of the transaction. -/
def Quiet (e : Engine L) (sql : Text) : Prop :=
  match parseSql L sql with
  | .error _ => True
  | .ok (.control c) => e.QuietControl c
  | .ok (.other s) =>
    let effect := L.run s [] e.mem e.view
    effect.mem = e.mem ∧ (∀ kvs ∈ effect.batches, kvs = []) ∧ ∀ kvs ∈ effect.catalog, kvs = []

lemma commitBatch_nil (target : Database) (nosync : Bool) :
    commitBatch target [] nosync = target := by
  rw [commitBatch_eq]
  exact if_pos rfl

lemma commitWrites_nil (e : Engine L) : e.commitWrites [] = e := by
  unfold commitWrites
  split_ifs
  · rw [append_nil]
  · rw [commitBatch_nil]

lemma QuietControl.execControl_eq {e : Engine L} {c : Control} (h : e.QuietControl c) :
    (e.execControl c).2 = e := by
  cases c with
  | begin => simp only [execControl, if_pos (show e.inTxn = true from h)]
  | commit => simp only [execControl, show e.inTxn = false from h, Bool.not_false, if_true]
  | rollback => simp only [execControl, show e.inTxn = false from h, Bool.not_false, if_true]
  | savepoint name => simp only [execControl, show e.inTxn = false from h, Bool.not_false, if_true]
  | rollbackTo name =>
    rcases h with h | h
    · simp [execControl, h]
    simp only [execControl]
    split_ifs
    · rfl
    split
    · rfl
    next i hi =>
    obtain ⟨hwrites, hsavepoints⟩ := h i hi
    show { e with txnWrites := e.txnWrites.take _, savepoints := e.savepoints.take _ } = e
    rw [take_of_length_le hwrites, take_of_length_le hsavepoints]
  | release name =>
    rcases h with h | h
    · simp [execControl, h]
    simp only [execControl]
    split_ifs
    · rfl
    split
    · rfl
    · next i hi =>
      show { e with savepoints := e.savepoints.take i } = e
      rw [take_of_length_le (h i hi)]

lemma Quiet.exec_eq {e : Engine L} {sql : Text} (h : e.Quiet sql) : (e.exec sql).2 = e := by
  unfold Quiet at h
  unfold exec execPrepared
  cases hparse : parseSql L sql with
  | error msg => rfl
  | ok st =>
    rw [hparse] at h
    cases st with
    | control c => exact QuietControl.execControl_eq h
    | other s =>
      obtain ⟨hmem, hbatches, hcatalog⟩ := h
      have hfold : ∀ (batches : List (List Write)) (e : Engine L), (∀ kvs ∈ batches, kvs = []) →
          batches.foldl commitWrites e = e := by
        intro batches
        induction batches with
        | nil => exact fun e _ ↦ rfl
        | cons kvs batches ih =>
          intro e hnil
          rw [foldl_cons, hnil kvs mem_cons_self, commitWrites_nil]
          exact ih e (forall_mem_cons.mp hnil).2
      have hschema : ∀ (batches : List (List Write)) (db : Database), (∀ kvs ∈ batches, kvs = []) →
          batches.foldl (fun db kvs ↦ commitBatch db kvs false) db = db := by
        intro batches
        induction batches with
        | nil => exact fun db _ ↦ rfl
        | cons kvs batches ih =>
          intro db hnil
          rw [foldl_cons, hnil kvs mem_cons_self, commitBatch_nil]
          exact ih db (forall_mem_cons.mp hnil).2
      show (e.execOther [] s).2 = e
      unfold execOther
      dsimp only
      rw [hfold _ _ hbatches, hschema _ _ hcatalog, hmem]

end Engine

end Lockstep.Sql
