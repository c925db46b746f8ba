import Mathlib
import Lockstep.Library.GuardedRun

/-!
# A sharded table

`DistributedSql` of `query/sql/DistributedSql.hpp` sends a statement to one shard, by the hash of a
key as it stands in the statement: the one in the WHERE of a point statement, and for an INSERT the
key of its first row, or 0 when the key column is not named or the coordinator does not know it. The
engine of the shard coerces keys before it stores or looks them up.

The cells of a row behind its key are of any type. What else an INSERT checks is a parameter.
-/

namespace Lockstep.Sql.Sharding

open Library Function

inductive Key
  | int (i : ℤ)
  | text (s : List UInt8)
  deriving DecidableEq

def shardOf (n : ℕ) [NeZero n] : Key → Fin n
  | .int i => Fin.ofNat n (UInt64.ofInt i * 2654435761 + 0x9E3779B97F4A7C15).toNat
  | .text s =>
    let h := s.foldl (fun (h : UInt64) c ↦ (h ^^^ c.toUInt64) * 1099511628211) 1469598103934665603
    Fin.ofNat n h.toNat

variable {Row : Type}

structure Schema (Row : Type) where
  autoIncrement : Bool
  /-- The map `pk_` of the coordinator has the key column. After CREATE TABLE LIKE it has not. -/
  known : Bool
  /-- What is stored for a key: a CHAR is padded. -/
  coerce : Key → Option Key
  /-- What a point SELECT looks up. -/
  look : Key → Key
  /-- The checks of a new row, in the table it comes into. -/
  accepts : (Key → Option Row) → Key → Row → Bool

structure Table (Row : Type) where
  rows : Key → Option Row := fun _ ↦ none
  nextAutoId : ℤ := 1

inductive Stmt (Row : Type)
  | insert (first : Option Key × Row) (more : List (Option Key × Row))
  | update (key : Key) (set : Row → Row)
  | delete (key : Key)

variable (S : Schema Row)

def Stmt.pkValueOf : Stmt Row → Key
  | insert first _ => if S.known then first.1.getD (.int 0) else .int 0
  | update key _ | delete key => key

namespace Table

variable (t : Table Row)

def keyOf (row : Option Key × Row) : Option Key :=
  match row.1 with
  | some key => S.coerce key
  | none => if S.autoIncrement then some (.int t.nextAutoId) else none

def nextAfter (key : Key) : ℤ :=
  match key with
  | .int i => if S.autoIncrement then max t.nextAutoId (i + 1) else t.nextAutoId
  | .text _ => t.nextAutoId

def stage (row : Option Key × Row) : Option (Table Row) := do
  let key ← t.keyOf S row
  if t.rows key = none ∧ S.accepts t.rows key row.2 then
    some { rows := update t.rows key (some row.2), nextAutoId := t.nextAfter S key }
  else none

def exec : Stmt Row → Option (Table Row)
  | .insert first more => (first :: more).foldlM (stage S) t
  | .update key set => (S.coerce key).map fun key ↦
    { t with rows := update t.rows key ((t.rows key).map set) }
  | .delete key => (S.coerce key).map fun key ↦ { t with rows := update t.rows key none }

end Table

variable {n : ℕ} [NeZero n]

/-- The shards, and an engine that executes what they execute. -/
structure Pair (n : ℕ) (Row : Type) where
  shards : Fin n → Table Row := fun _ ↦ {}
  one : Table Row := {}

def Pair.select (p : Pair n Row) (key : Key) : Option Row :=
  (p.shards (shardOf n key)).rows (S.look key)

def Pair.exec (p : Pair n Row) (stmt : Stmt Row) : Pair n Row :=
  let shard := shardOf n (stmt.pkValueOf S)
  match (p.shards shard).exec S stmt with
  | none => p
  | some t => ⟨update p.shards shard t, (p.one.exec S stmt).getD p.one⟩

/-- The rows that come into a table on a shard belong there; the counter and the checks come to the
same as on one engine. -/
def Belong (shard : Fin n) : Table Row → Table Row → List (Option Key × Row) → Prop
  | _, _, [] => True
  | t, one, row :: rows => ∀ key ∈ t.keyOf S row,
    shardOf n key = shard ∧ one.keyOf S row = some key ∧
      S.accepts one.rows key row.2 = S.accepts t.rows key row.2 ∧
      ∀ t' ∈ t.stage S row, ∀ one' ∈ one.stage S row, Belong shard t' one' rows

/-- The statement goes to the shard of the keys that it stores or looks up. -/
def Pair.Routes (p : Pair n Row) (stmt : Stmt Row) : Prop :=
  let shard := shardOf n (stmt.pkValueOf S)
  match stmt with
  | .insert first more => Belong S shard (p.shards shard) p.one (first :: more)
  | .update key _ | .delete key => ∀ stored ∈ S.coerce key, shardOf n stored = shard

/-! ### The pair stays together -/

/-- The engine holds what the shards hold, each row on the shard of its key. -/
structure Pair.Holds (p : Pair n Row) : Prop where
  same : ∀ key, (p.shards (shardOf n key)).rows key = p.one.rows key
  only : ∀ key shard, (p.shards shard).rows key ≠ none → shard = shardOf n key

/-- Two tables after a statement on a shard: the same keys of the shard, the others as before. -/
structure Follow (shard : Fin n) (t one t' one' : Table Row) : Prop where
  here : ∀ key, shardOf n key = shard → t'.rows key = one'.rows key
  rest : ∀ key, shardOf n key ≠ shard →
    t'.rows key = t.rows key ∧ one'.rows key = one.rows key

variable {S} {shard : Fin n} {t t' one : Table Row}

lemma follow_update {key : Key} (hkey : shardOf n key = shard) (value : Option Row)
    (hsame : ∀ key, shardOf n key = shard → t.rows key = one.rows key) (i j : ℤ) :
    Follow shard t one ⟨update t.rows key value, i⟩ ⟨update one.rows key value, j⟩ where
  here other hother := by
    by_cases h : other = key
    · simp [h]
    · simp [h, hsame other hother]
  rest other hother := by
    have h : other ≠ key := fun h ↦ hother (h ▸ hkey)
    simp [h]

lemma stage_follow {row : Option Key × Row} {key : Key} (hkey : t.keyOf S row = some key)
    (hshard : shardOf n key = shard) (hone : one.keyOf S row = some key)
    (haccepts : S.accepts one.rows key row.2 = S.accepts t.rows key row.2)
    (hsame : ∀ key, shardOf n key = shard → t.rows key = one.rows key)
    (h : t.stage S row = some t') :
    ∃ one', one.stage S row = some one' ∧ Follow shard t one t' one' := by
  rw [Table.stage, hkey, Option.bind_eq_bind, Option.bind_some] at h
  split_ifs at h with hcond
  cases h
  rw [hsame _ hshard, ← haccepts] at hcond
  exact ⟨_, by rw [Table.stage, hone]; exact if_pos hcond, follow_update hshard _ hsame _ _⟩

lemma foldlM_follow {rows : List (Option Key × Row)} (hbelong : Belong S shard t one rows)
    (hsame : ∀ key, shardOf n key = shard → t.rows key = one.rows key)
    (h : rows.foldlM (Table.stage S) t = some t') :
    ∃ one', rows.foldlM (Table.stage S) one = some one' ∧ Follow shard t one t' one' := by
  induction rows generalizing t one with
  | nil =>
    cases h
    exact ⟨one, rfl, hsame, fun _ _ ↦ ⟨rfl, rfl⟩⟩
  | cons row rows ih =>
    obtain ⟨t₁, ht₁, h⟩ := Option.bind_eq_some_iff.mp h
    obtain ⟨key, hkey, -⟩ := Option.bind_eq_some_iff.mp ht₁
    obtain ⟨hshard, hone, haccepts, hrest⟩ := hbelong key hkey
    obtain ⟨one₁, hone₁, hfirst⟩ := stage_follow hkey hshard hone haccepts hsame ht₁
    obtain ⟨one', hone', hothers⟩ := ih (hrest t₁ ht₁ one₁ hone₁) hfirst.here h
    refine ⟨one', Option.bind_eq_some_iff.mpr ⟨one₁, hone₁, hone'⟩, hothers.here, fun key hkey ↦ ?_⟩
    obtain ⟨hshard, hengine⟩ := hothers.rest key hkey
    exact ⟨hshard.trans (hfirst.rest key hkey).1, hengine.trans (hfirst.rest key hkey).2⟩

lemma exec_follow {p : Pair n Row} (hp : p.Holds) {stmt : Stmt Row} (hroutes : p.Routes S stmt)
    (h : (p.shards (shardOf n (stmt.pkValueOf S))).exec S stmt = some t') :
    ∃ one', p.one.exec S stmt = some one' ∧
      Follow (shardOf n (stmt.pkValueOf S)) (p.shards (shardOf n (stmt.pkValueOf S))) p.one t'
        one' := by
  have hsame : ∀ key, shardOf n key = shardOf n (stmt.pkValueOf S) →
      (p.shards (shardOf n (stmt.pkValueOf S))).rows key = p.one.rows key :=
    fun key hkey ↦ hkey ▸ hp.same key
  cases stmt with
  | insert first more => exact foldlM_follow hroutes hsame h
  | update key set =>
    obtain ⟨stored, hstored, rfl⟩ := Option.map_eq_some_iff.mp h
    refine ⟨_, by rw [Table.exec, hstored, Option.map_some], ?_⟩
    rw [← hsame stored (hroutes stored hstored)]
    exact follow_update (hroutes stored hstored) _ hsame _ _
  | delete key =>
    obtain ⟨stored, hstored, rfl⟩ := Option.map_eq_some_iff.mp h
    exact ⟨_, by rw [Table.exec, hstored, Option.map_some],
      follow_update (hroutes stored hstored) none hsame _ _⟩

lemma Pair.Holds.exec {p : Pair n Row} (hp : p.Holds) {stmt : Stmt Row}
    (hroutes : p.Routes S stmt) : (p.exec S stmt).Holds := by
  rw [Pair.exec]
  cases h : (p.shards (shardOf n (stmt.pkValueOf S))).exec S stmt with
  | none => exact hp
  | some t' =>
    obtain ⟨one', hone, hfollow⟩ := exec_follow hp hroutes h
    rw [hone]
    refine ⟨fun key ↦ ?_, fun key shard hrow ↦ ?_⟩
    · by_cases hkey : shardOf n key = shardOf n (stmt.pkValueOf S)
      · simpa [hkey] using hfollow.here key hkey
      · simpa [hkey, (hfollow.rest key hkey).2] using hp.same key
    by_cases hshard : shard = shardOf n (stmt.pkValueOf S)
    · by_contra hkey
      have hother : shardOf n key ≠ shardOf n (stmt.pkValueOf S) :=
        fun h ↦ hkey (hshard.trans h.symm)
      simp only [hshard, update_self, (hfollow.rest key hother).1] at hrow
      exact hkey (hshard.trans (hp.only key _ hrow))
    · exact hp.only key shard (by simpa [hshard] using hrow)

/-- A table whose key is an INT with AUTO_INCREMENT. -/
def plain : Schema ℕ := ⟨true, true, some, id, fun _ _ _ ↦ true⟩

end Lockstep.Sql.Sharding
