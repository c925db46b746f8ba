import Lockstep.Sql.Engine

/-!
# Statements over one table

An instance of the statements that the engine takes as a parameter: `INSERT` with an optional
`RETURNING`, `SELECT` and `TRUNCATE`, over a catalog with the single table `t (id INT PRIMARY KEY)`,
whose table id is 1.

`INSERT` refuses a key that is there, in the buffer of the transaction or in the store. `SELECT` and
`TRUNCATE` scan the store, and the latter reports no rows.
-/

namespace Lockstep.Sql.OneTable

open Query

inductive Stmt where
  | insert (id : ℤ) (returning : Bool)
  | select
  | truncate
  deriving DecidableEq

def kwInsert : Text := ['i', 'n', 's', 'e', 'r', 't']
def kwInto : Text := ['i', 'n', 't', 'o']
def kwValues : Text := ['v', 'a', 'l', 'u', 'e', 's']
def kwReturning : Text := ['r', 'e', 't', 'u', 'r', 'n', 'i', 'n', 'g']
def kwSelect : Text := ['s', 'e', 'l', 'e', 'c', 't']
def kwFrom : Text := ['f', 'r', 'o', 'm']
def kwTruncate : Text := ['t', 'r', 'u', 'n', 'c', 'a', 't', 'e']
def kwTable : Text := ['t', 'a', 'b', 'l', 'e']

def parse : List Token → Except String Stmt
  | .ident kw :: .ident into :: .ident ['t'] :: .sym .lParen :: .ident ['i', 'd'] ::
      .sym .rParen :: .ident values :: .sym .lParen :: .intLit _ id _ :: .sym .rParen :: rest =>
    if lower kw = kwInsert ∧ lower into = kwInto ∧ lower values = kwValues then
      match rest with
      | .ident kw :: .ident ['i', 'd'] :: rest =>
        if lower kw = kwReturning then endOfStatement (.insert id true) rest
        else .error "unsupported statement"
      | rest => endOfStatement (.insert id false) rest
    else .error "unsupported statement"
  | .ident kw :: rest =>
    if lower kw = kwTruncate then
      match skipKw [kwTable] rest with
      | .ident ['t'] :: rest => endOfStatement .truncate rest
      | _ => .error "unsupported statement"
    else if lower kw = kwSelect then
      match rest with
      | .ident ['i', 'd'] :: .ident from' :: .ident ['t'] :: rest =>
        if lower from' = kwFrom then endOfStatement .select rest
        else .error "unsupported statement"
      | _ => .error "unsupported statement"
    else .error "unsupported statement"
  | _ => .error "unsupported statement"

def be64 (n : ℕ) : List UInt8 := (List.range 8).reverse.map fun i ↦ UInt8.ofNat (n / 256 ^ i)

def rowKey (id : ℤ) : Storage.Key :=
  [0x74, 0, 0, 0, 1, 0x3A] ++ (if id < 0 then 0 else 1) :: be64 (id + 2 ^ 63).toNat

def tablePrefix : Storage.Key := [0x74, 0, 0, 0, 1, 0x3A]

def readCommitted (v : View) (key : Storage.Key) : Option Storage.Value :=
  let committed := PersistentStore.contents v.writes key
  if v.inTxn then
    v.txnWrites.foldl (fun found kv ↦ if kv.1 = key then some kv.2 else found) committed
  else committed

def renderId (id : ℤ) : Text := (toString id).toList

def idOf (key : Storage.Key) : ℤ :=
  (key.drop 7).foldl (fun (n : ℤ) b ↦ 256 * n + b.toNat) 0 - 2 ^ 63

def inserted (id : ℤ) (returning : Bool) : ExecResult :=
  { affected := 1, rows := if returning then [[(['i', 'd'], renderId id)]] else [] }

def run (s : Stmt) (v : View) : Effect Unit :=
  match s with
  | .insert id returning =>
    let key := rowKey id
    match readCommitted v key with
    | some value =>
      if value ≠ deleteSentinel then
        { result := .failure "duplicate primary key in table 't' (row already exists)", mem := () }
      else
        { result := inserted id returning, mem := (), batches := [[(key, [])]] }
    | none => { result := inserted id returning, mem := (), batches := [[(key, [])]] }
  | .select =>
    let rows := (Database.table v.writes).entries.filter fun kv ↦
      tablePrefix.isPrefixOf kv.1 && kv.2 != deleteSentinel
    { result := { rows := rows.map fun kv ↦ [(['i', 'd'], renderId (idOf kv.1))] }, mem := () }
  | .truncate =>
    let rows := (Database.table v.writes).entries.filter fun kv ↦ tablePrefix.isPrefixOf kv.1
    { result := {}, mem := (), batches := [rows.map fun kv ↦ (kv.1, deleteSentinel)] }

/-- `INSERT`, `SELECT` and `TRUNCATE` of one table of numbers. -/
def language : Language where
  Stmt := Stmt
  Mem := Unit
  Datum := Unit
  parse := parse
  run s _ _ v := run s v
  rollbackMem := id

end Lockstep.Sql.OneTable
