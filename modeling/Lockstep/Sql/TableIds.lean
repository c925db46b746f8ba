import Lockstep.Library.GuardedRun
import Lockstep.Library.OrderedMap
import Lockstep.Storage.Codec

/-!
# Table ids

A table of `query/sql/Engine.hpp` keeps its rows under its id. DROP TABLE leaves them there and
retires the schema record, so that a new table is empty only when ids are not given out twice. The
counter of ids has 32 bits, and recovery counts on from the ids of the schema records that are left
(`query/sql/Catalog.hpp`).
-/

namespace Lockstep.Sql.TableIds

open Library Storage GuardedRun OrderedMap

/-- The catalog, its schema records and the rows by table id. -/
structure Engine where
  tables : OrderedMap String ℕ := .empty
  nextId : ℕ := 1
  records : OrderedMap String ℕ := .empty
  rows : ℕ → OrderedMap Key Value := fun _ ↦ .empty

inductive Stmt where
  | create (name : String)
  | insert (name : String) (key : Key) (row : Value)
  | delete (name : String) (key : Key)
  | drop (name : String)
  | recover
  deriving DecidableEq

namespace Engine

def execCreate (e : Engine) (name : String) : Except String Engine :=
  if (e.tables.find name).isSome then .error s!"table '{name}' already exists"
  else .ok { e with
    tables := e.tables.insert name e.nextId
    nextId := (e.nextId + 1) % 2 ^ 32
    records := e.records.insert name e.nextId }

def execInsert (e : Engine) (name : String) (key : Key) (row : Value) : Except String Engine :=
  match e.tables.find name with
  | none => .error s!"unknown table '{name}'"
  | some id =>
    if ((e.rows id).find key).isSome then
      .error s!"duplicate primary key in table '{name}' (row already exists)"
    else .ok { e with rows := Function.update e.rows id ((e.rows id).insert key row) }

def execDelete (e : Engine) (name : String) (key : Key) : Except String Engine :=
  match e.tables.find name with
  | none => .error s!"unknown table '{name}'"
  | some id => .ok { e with rows := Function.update e.rows id ((e.rows id).erase key) }

def execDropTable (e : Engine) (name : String) : Except String Engine :=
  if (e.tables.find name).isNone then .error s!"unknown table '{name}'"
  else .ok { e with tables := e.tables.erase name, records := e.records.erase name }

def insertRecovered (next id : ℕ) : ℕ := if next ≤ id then (id + 1) % 2 ^ 32 else next

def countOn (records : OrderedMap String ℕ) : ℕ :=
  (records.entries.map Prod.snd).foldl insertRecovered 1

def recover (e : Engine) : Engine := { e with tables := e.records, nextId := countOn e.records }

def exec (e : Engine) : Stmt → Except String Engine
  | .create name => e.execCreate name
  | .insert name key row => e.execInsert name key row
  | .delete name key => e.execDelete name key
  | .drop name => e.execDropTable name
  | .recover => .ok e.recover

def step (e : Engine) (s : Stmt) : Engine := (e.exec s).toOption.getD e

def select (e : Engine) (name : String) : Option (List (Key × Value)) :=
  (e.tables.find name).map fun id ↦ (e.rows id).entries

/-- The counter does not wrap, and a recovery counts on above every id with rows. -/
def IdsKept (e : Engine) : Stmt → Prop
  | .create _ => e.nextId + 1 < 2 ^ 32
  | .recover => ∀ id, (e.rows id).entries ≠ [] → id < countOn e.records
  | _ => True

/-- Every id in use is below the counter. -/
structure Counted (e : Engine) : Prop where
  width : e.nextId < 2 ^ 32
  tables : ∀ name id, e.tables.find name = some id → id < e.nextId
  records : ∀ name id, e.records.find name = some id → id < e.nextId
  rows : ∀ id, (e.rows id).entries ≠ [] → id < e.nextId

lemma lt_foldl_insertRecovered {ids : List ℕ} (hids : ∀ id ∈ ids, id + 1 < 2 ^ 32) {next : ℕ}
    (hnext : next < 2 ^ 32) :
    ids.foldl insertRecovered next < 2 ^ 32 ∧ next ≤ ids.foldl insertRecovered next ∧
      ∀ id ∈ ids, id < ids.foldl insertRecovered next := by
  induction ids generalizing next with
  | nil => simpa using hnext
  | cons id ids ih =>
    have hid := Nat.mod_eq_of_lt (hids id List.mem_cons_self)
    grind [insertRecovered]

lemma Counted.countOn {e : Engine} (h : e.Counted) : countOn e.records < 2 ^ 32 ∧
    ∀ name id, e.records.find name = some id → id < countOn e.records := by
  have hids : ∀ id ∈ e.records.entries.map Prod.snd, id + 1 < 2 ^ 32 := by
    intro id hid
    obtain ⟨⟨name, _⟩, hmem, rfl⟩ := List.mem_map.mp hid
    exact Nat.lt_of_le_of_lt (h.records name _ (find_eq_some_iff.mpr hmem)) h.width
  obtain ⟨hwidth, -, hlt⟩ := lt_foldl_insertRecovered hids (by decide : 1 < 2 ^ 32)
  exact ⟨hwidth, fun name id hid ↦ hlt id (List.mem_map.mpr ⟨_, find_eq_some_iff.mp hid, rfl⟩)⟩

lemma Counted.update {e : Engine} (h : e.Counted) {name : String} {id : ℕ}
    (hid : e.tables.find name = some id) (rows : OrderedMap Key Value) :
    Counted { e with rows := Function.update e.rows id rows } where
  width := h.width
  tables := h.tables
  records := h.records
  rows other hother := by
    by_cases hsame : other = id
    · exact hsame ▸ h.tables name id hid
    · exact h.rows other (by simpa [Function.update_of_ne hsame] using hother)

lemma Counted.exec {e after : Engine} (h : e.Counted) {s : Stmt} (hkept : e.IdsKept s)
    (hexec : e.exec s = .ok after) : after.Counted := by
  cases s with
  | create name =>
    rw [Engine.exec, execCreate] at hexec
    rw [Nat.mod_eq_of_lt hkept] at hexec
    split_ifs at hexec
    cases hexec
    have hinsert : ∀ {ids : OrderedMap String ℕ},
        (∀ name id, ids.find name = some id → id < e.nextId) → ∀ other id,
          (ids.insert name e.nextId).find other = some id → id < e.nextId + 1 := by
      intro ids hids other id hother
      rw [find_insert] at hother
      split_ifs at hother
      · exact Option.some.inj hother ▸ Nat.lt_succ_self _
      · exact (hids _ _ hother).trans (Nat.lt_succ_self _)
    exact ⟨hkept, hinsert h.tables, hinsert h.records,
      fun id hid ↦ (h.rows id hid).trans (Nat.lt_succ_self _)⟩
  | insert name key row =>
    rw [Engine.exec, execInsert] at hexec
    split at hexec
    · cases hexec
    · split_ifs at hexec
      cases hexec
      exact h.update ‹_› _
  | delete name key =>
    rw [Engine.exec, execDelete] at hexec
    split at hexec
    · cases hexec
    · cases hexec
      exact h.update ‹_› _
  | drop name =>
    rw [Engine.exec, execDropTable] at hexec
    split_ifs at hexec
    cases hexec
    have herase : ∀ {ids : OrderedMap String ℕ} {other id},
        (ids.erase name).find other = some id → ids.find other = some id := by
      intro ids other id hother
      rw [find_erase] at hother
      split_ifs at hother
      exact hother
    exact ⟨h.width, fun _ _ hother ↦ h.tables _ _ (herase hother),
      fun _ _ hother ↦ h.records _ _ (herase hother), h.rows⟩
  | recover =>
    cases hexec
    exact ⟨h.countOn.1, h.countOn.2, h.countOn.2, hkept⟩

lemma Counted.step {e : Engine} (h : e.Counted) {s : Stmt} (hkept : e.IdsKept s) :
    (e.step s).Counted := by
  rw [Engine.step]
  cases hexec : e.exec s with
  | error msg => exact h
  | ok after => exact h.exec hkept hexec

/-- In every run in which the counter does not wrap and recoveries give out no id with rows, a table
that was just created is empty. -/
theorem created_empty (steps : List Stmt) (name : String)
    (hkept : Meets step IdsKept {} steps) {after : Engine}
    (hcreate : (run step {} steps).exec (.create name) = .ok after) :
    after.select name = some [] := by
  have hcounted : (run step {} steps).Counted :=
    hkept.induction Counted (fun _ _ h hk ↦ h.step hk)
      ⟨by decide, fun _ _ h ↦ by simp at h, fun _ _ h ↦ by simp at h, fun _ h ↦ absurd rfl h⟩
  rw [Engine.exec, execCreate] at hcreate
  split_ifs at hcreate
  cases hcreate
  have hrows := not_imp_comm.mp (hcounted.rows (run step {} steps).nextId) (lt_irrefl _)
  simpa [select, find_insert] using hrows

/-- A table that is still there after the recovery. -/
theorem created_empty_second :
    let steps : List Stmt := [.create "u", .insert "u" [1] [7], .recover]
    ∃ after, (run step {} steps).exec (.create "t") = .ok after ∧
      after.select "t" = some [] := by
  have hkept : Meets step IdsKept {} [.create "u", .insert "u" [1] [7], .recover] := by
    refine ⟨(by decide : 1 + 1 < 2 ^ 32), trivial, fun id hid ↦ ?_, trivial⟩
    by_cases hone : id = 1
    · subst hone
      decide +kernel
    · exact absurd (congrArg entries
        (Function.update_of_ne hone _ fun _ ↦ empty)) hid
  exact ⟨_, rfl, created_empty _ "t" hkept rfl⟩

/-- The id of a dropped table is given out again after a recovery, and its row is back. -/
theorem created_with_row :
    let e := run step {} [.create "t", .insert "t" [1] [7], .drop "t", .recover]
    (e.exec (.create "t")).toOption.bind (·.select "t") = some [([1], [7])] := by
  decide +kernel

end Engine

end Lockstep.Sql.TableIds
