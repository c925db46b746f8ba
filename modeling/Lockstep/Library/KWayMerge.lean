import Mathlib
import Lockstep.Library.SortedByKey

/-!
# Merging cursors

`merge` keeps the head of every cursor and repeats: take the least key among the heads, output the
winner among the heads of that key, which is the one with the largest number and the last of those,
and advance the cursors that had it.

When every cursor runs through a list sorted by key, the output is sorted by key and holds for each
key the latest of the items the lists hold for it (`merge_spec`).
-/

namespace Lockstep.Library.KWayMerge

open Newest SortedByKey List Option

variable {α σ K : Type*} [LinearOrder K] (key : α → K) (seq : α → ℕ)
  (advance : σ → Option (α × σ))

variable {k : K} {lists : List (List α)} {heads : List (Option (α × σ))} {items : List α} {a : α}

def lesser (least : Option K) (head : Option (α × σ)) : Option K :=
  match least, head with
  | least, none => least
  | none, some (a, _) => some (key a)
  | some k, some (a, _) => if key a < k then some (key a) else some k

def minKey (heads : List (Option (α × σ))) : Option K := heads.foldl (lesser key) none

def itemAt (k : K) (head : Option (α × σ)) : Option α :=
  match head with
  | none => none
  | some (a, _) => if key a = k then some a else none

def winner (k : K) (heads : List (Option (α × σ))) : Option α :=
  heads.foldl (fun best head ↦ later seq best (itemAt key k head)) none

def advanceAt (k : K) (head : Option (α × σ)) : Option (α × σ) :=
  match head with
  | none => none
  | some (a, cursor) => if key a = k then advance cursor else some (a, cursor)

def merge : ℕ → List (Option (α × σ)) → List α
  | 0, _ => []
  | fuel + 1, heads =>
    match minKey key heads with
    | none => []
    | some k =>
      match winner key seq k heads with
      | none => []
      | some a => a :: merge fuel (heads.map (advanceAt key advance k))

/-- The head of a cursor that runs through a list. -/
inductive Runs : Option (α × σ) → List α → Prop
  | done : Runs none []
  | item (a : α) (cursor : σ) (items : List α) (h : Runs (advance cursor) items) :
    Runs (some (a, cursor)) (a :: items)

variable {key seq advance}

/-! ### The least key -/

lemma minKey_eq_min? (heads : List (Option (α × σ))) :
    minKey key heads = (heads.reduceOption.map fun head ↦ key head.1).min? := by
  have hfold : ∀ (heads : List (Option (α × σ))) (k : K), heads.foldl (lesser key) (some k) =
      some ((heads.reduceOption.map fun head ↦ key head.1).foldl min k) := by
    intro heads
    induction heads with
    | nil => exact fun k ↦ rfl
    | cons head heads ih =>
      intro k
      rcases head with _ | ⟨a, cursor⟩
      · exact ih k
      · rw [foldl_cons, lesser, ← apply_ite some, ih, reduceOption_cons_of_some, map_cons,
          foldl_cons, min_comm, min_def_lt]
  induction heads with
  | nil => rfl
  | cons head heads ih =>
    rcases head with _ | ⟨a, cursor⟩
    · exact ih
    · exact hfold heads (key a)

lemma minKey_eq_none (h : minKey key heads = none) : ∀ head ∈ heads, head = none := by
  rw [minKey_eq_min?, min?_eq_none_iff, map_eq_nil_iff] at h
  intro head hmem
  cases head with
  | none => rfl
  | some r => exact absurd (reduceOption_mem_iff.mpr hmem) (h ▸ not_mem_nil)

lemma minKey_eq_some (h : minKey key heads = some k) :
    (∀ a cursor, some (a, cursor) ∈ heads → k ≤ key a) ∧
      ∃ a cursor, some (a, cursor) ∈ heads ∧ key a = k := by
  rw [minKey_eq_min?, min?_eq_some_iff, List.mem_map] at h
  obtain ⟨⟨⟨a, cursor⟩, hmem, hk⟩, hle⟩ := h
  exact ⟨fun b c hb ↦ hle _ (mem_map_of_mem (reduceOption_mem_iff.mpr hb)),
    a, cursor, reduceOption_mem_iff.mp hmem, hk⟩

/-! ### One round -/

def latest (key : α → K) (seq : α → ℕ) (k : K) (lists : List (List α)) : Option α :=
  lists.foldl (fun best items ↦ later seq best (find key k items)) none

variable {head : Option (α × σ)}

lemma Runs.itemAt_eq_find (h : Runs advance head items)
    (hsorted : Sorted key items) (hmin : ∀ a cursor, head = some (a, cursor) → k ≤ key a) :
    itemAt key k head = find key k items := by
  cases h with
  | done => rfl
  | item a cursor items h =>
    rw [itemAt, find_cons]
    split_ifs with hk
    · rfl
    · have hlt := lt_of_le_of_ne (hmin a cursor rfl) (Ne.symm hk)
      refine (find_eq_none_iff.mpr fun b hb ↦ ?_).symm
      exact (hlt.trans (hsorted.lt_of_mem hb)).ne'

def remaining (key : α → K) (k : K) (items : List α) : List α :=
  match items with
  | [] => []
  | a :: items => if key a = k then items else a :: items

lemma Runs.advanceAt (h : Runs advance head items) (k : K) :
    Runs advance (advanceAt key advance k head) (remaining key k items) := by
  cases h with
  | done => exact Runs.done
  | item a cursor items h =>
    rw [KWayMerge.advanceAt, remaining]
    split_ifs
    · exact h
    · exact Runs.item a cursor items h

lemma Sorted.remaining (h : Sorted key items) (k : K) : Sorted key (remaining key k items) := by
  rcases items with _ | ⟨a, items⟩
  · exact h
  · rw [KWayMerge.remaining]
    split_ifs
    · exact h.tail
    · exact h

lemma find_remaining (h : Sorted key items) (hmin : ∀ a ∈ items, k ≤ key a) (k' : K) :
    find key k' (remaining key k items) = if k' = k then none else find key k' items := by
  rcases items with _ | ⟨a, items⟩
  · rw [remaining, find_nil, ite_self]
  rw [remaining]
  by_cases hk : key a = k
  · subst hk
    rw [if_pos rfl, find_cons]
    by_cases hk' : k' = key a
    · rw [if_pos hk', hk', h.find_tail_self]
    · rw [if_neg hk', if_neg (Ne.symm hk')]
  · rw [if_neg hk]
    by_cases hk' : k' = k
    · rw [if_pos hk', hk']
      exact h.find_of_lt (lt_of_le_of_ne (hmin a mem_cons_self) (Ne.symm hk))
    · rw [if_neg hk']

lemma length_remaining_le (k : K) (items : List α) :
    (remaining key k items).length ≤ items.length := by
  rcases items with _ | ⟨a, items⟩
  · exact Nat.le_refl _
  · rw [remaining]
    split_ifs
    · exact Nat.le_succ _
    · exact Nat.le_refl _

/-! ### All rounds -/

def Follows (key : α → K) (advance : σ → Option (α × σ)) (heads : List (Option (α × σ)))
    (lists : List (List α)) : Prop :=
  Forall₂ (fun head items ↦ Runs advance head items ∧ Sorted key items) heads lists

lemma Follows.step {heads : List (Option (α × σ))} {lists : List (List α)}
    (h : Follows key advance heads lists) (k : K) :
    Follows key advance (heads.map (advanceAt key advance k)) (lists.map (remaining key k)) := by
  refine forall₂_map_left_iff.mpr (forall₂_map_right_iff.mpr (h.imp ?_))
  exact fun head items hruns ↦ ⟨hruns.1.advanceAt k, Sorted.remaining hruns.2 k⟩

lemma Follows.winner_eq_latest (h : Follows key advance heads lists)
    (hmin : ∀ a cursor, some (a, cursor) ∈ heads → k ≤ key a) :
    winner key seq k heads = latest key seq k lists := by
  rw [winner, latest]
  generalize (none : Option α) = best
  induction h generalizing best with
  | nil => rfl
  | cons hruns hrest ih =>
    rw [foldl_cons, foldl_cons, hruns.1.itemAt_eq_find hruns.2
      fun a cursor heq ↦ hmin a cursor (heq ▸ mem_cons_self)]
    exact ih (fun a cursor hmem ↦ hmin a cursor (mem_cons_of_mem _ hmem)) _

lemma Follows.le_of_mem (h : Follows key advance heads lists)
    (hmin : ∀ a cursor, some (a, cursor) ∈ heads → k ≤ key a) :
    ∀ items ∈ lists, ∀ a ∈ items, k ≤ key a := by
  induction h with
  | nil => exact nofun
  | cons hruns hrest ih =>
    intro items hmem
    rcases mem_cons.mp hmem with rfl | hmem
    · obtain ⟨hruns, hsorted⟩ := hruns
      cases hruns with
      | done => exact nofun
      | item a cursor items h =>
        exact fun b hb ↦ (hmin a cursor mem_cons_self).trans (hsorted.le_of_mem b hb)
    · exact ih (fun a cursor hmem ↦ hmin a cursor (mem_cons_of_mem _ hmem)) items hmem

lemma latest_eq_newest (k : K) (lists : List (List α)) :
    latest key seq k lists = newest seq (lists.filterMap (find key k)) := by
  have hfold : ∀ best, lists.foldl (fun best items ↦ later seq best (find key k items)) best =
      later seq best (newest seq (lists.filterMap (find key k))) := by
    induction lists with
    | nil => exact fun best ↦ (later_none_right best).symm
    | cons items lists ih =>
      intro best
      rw [foldl_cons, ih, filterMap_cons]
      cases find key k items with
      | none => rw [later_none_right]
      | some a => rw [newest_cons, later_assoc]
  exact hfold none

lemma latest_of_forall_none (h : ∀ items ∈ lists, find key k items = none) :
    latest key seq k lists = none := by
  rw [latest_eq_newest, filterMap_eq_nil_iff.mpr h, newest_nil]

lemma latest_remaining (hsorted : ∀ items ∈ lists, Sorted key items)
    (hmin : ∀ items ∈ lists, ∀ a ∈ items, k ≤ key a) (k' : K) :
    latest key seq k' (lists.map (remaining key k)) =
      if k' = k then none else latest key seq k' lists := by
  have hfind := fun items hmem ↦ find_remaining (hsorted items hmem) (hmin items hmem) k'
  split_ifs with hk
  · refine latest_of_forall_none (forall_mem_map.mpr fun items hmem ↦ ?_)
    rw [hfind items hmem, if_pos hk]
  · rw [latest_eq_newest, latest_eq_newest, filterMap_map]
    refine congrArg _ (filterMap_congr fun items hmem ↦ ?_)
    rw [Function.comp_apply, hfind items hmem, if_neg hk]

lemma key_of_latest (h : latest key seq k lists = some a) : key a = k := by
  rw [latest_eq_newest] at h
  obtain ⟨items, -, hfind⟩ := mem_filterMap.mp (newest_mem h)
  exact key_of_find hfind

lemma sum_length_remaining_lt (hone : ∃ a items, a :: items ∈ lists ∧ key a = k) :
    ((lists.map (remaining key k)).map length).sum < (lists.map length).sum := by
  obtain ⟨a, items, hmem, hk⟩ := hone
  obtain ⟨before, after, rfl⟩ := append_of_mem hmem
  have hle : ∀ lists : List (List α),
      ((lists.map (remaining key k)).map length).sum ≤ (lists.map length).sum := by
    intro lists
    induction lists with
    | nil => exact Nat.le_refl _
    | cons items lists ih =>
      simp only [map_cons, sum_cons]
      exact Nat.add_le_add (length_remaining_le k items) ih
  have hbefore := hle before
  have hafter := hle after
  have htaken : (remaining key k (a :: items)).length = items.length := by
    rw [remaining, if_pos hk]
  simp only [map_append, map_cons, sum_append, sum_cons, htaken, length_cons] at hbefore hafter ⊢
  omega

lemma Follows.sorted (h : Follows key advance heads lists) :
    ∀ items ∈ lists, Sorted key items := by
  induction h with
  | nil => exact nofun
  | cons hruns hrest ih =>
    intro items hmem
    rcases mem_cons.mp hmem with rfl | hmem
    · exact hruns.2
    · exact ih items hmem

lemma Follows.front_of_head (h : Follows key advance heads lists) {cursor : σ}
    (hmem : some (a, cursor) ∈ heads) : ∃ items, a :: items ∈ lists := by
  induction h with
  | nil => cases hmem
  | cons hruns hrest ih =>
    rcases mem_cons.mp hmem with rfl | hmem
    · obtain ⟨hruns, -⟩ := hruns
      cases hruns with
      | item a cursor items h => exact ⟨items, mem_cons_self⟩
    · obtain ⟨items, hitems⟩ := ih hmem
      exact ⟨items, mem_cons_of_mem _ hitems⟩

lemma exists_latest (hmem : items ∈ lists) (ha : find key k items = some a) :
    ∃ b, latest key seq k lists = some b := by
  rw [latest_eq_newest]
  exact newest_isSome (mem_filterMap.mpr ⟨items, hmem, ha⟩)

lemma merge_spec {fuel : ℕ} (h : Follows key advance heads lists)
    (hfuel : (lists.map length).sum < fuel) :
    Sorted key (merge key seq advance fuel heads) ∧
      ∀ k, find key k (merge key seq advance fuel heads) = latest key seq k lists := by
  induction fuel generalizing heads lists with
  | zero => exact absurd hfuel (Nat.not_lt_zero _)
  | succ fuel ih =>
    rw [merge]
    cases hmin : minKey key heads with
    | none =>
      refine ⟨List.Pairwise.nil, fun k ↦ ?_⟩
      have hnone := minKey_eq_none hmin
      refine (latest_of_forall_none fun items hmem ↦ ?_).symm
      -- A list with an item would have it at the head of its cursor.
      clear hmin hfuel
      induction h with
      | nil => cases hmem
      | cons hruns hrest ihrest =>
        rcases mem_cons.mp hmem with rfl | hmem
        · obtain ⟨hruns, -⟩ := hruns
          rw [hnone _ mem_cons_self] at hruns
          cases hruns
          rfl
        · exact ihrest (forall_mem_cons.mp hnone).2 hmem
    | some k =>
      obtain ⟨hheads, a, cursor, hhead, hk⟩ := minKey_eq_some hmin
      obtain ⟨items, hitems⟩ := h.front_of_head hhead
      have hlists := h.le_of_mem hheads
      obtain ⟨hrest, hfind⟩ := ih (h.step k) (by
        have hlt := sum_length_remaining_lt ⟨a, items, hitems, hk⟩
        omega)
      obtain ⟨b, hb⟩ : ∃ b, latest key seq k lists = some b :=
        exists_latest hitems (by rw [find_cons, if_pos hk])
      have hbkey : key b = k := key_of_latest hb
      dsimp only
      rw [h.winner_eq_latest hheads, hb]
      dsimp only
      refine ⟨pairwise_cons.mpr ⟨fun c hc ↦ ?_, hrest⟩, fun k' ↦ ?_⟩
      · -- What is left holds no key at or below this one.
        have hfound := hrest.find_of_mem hc
        rw [hfind, latest_remaining h.sorted hlists] at hfound
        by_contra hle
        have hcle : key c ≤ k := hbkey ▸ not_lt.mp hle
        rcases hcle.lt_or_eq with hlt | heq
        · rw [if_neg hlt.ne, latest_of_forall_none] at hfound
          · cases hfound
          · intro l hl
            refine find_eq_none_iff.mpr fun d hd ↦ ?_
            exact (hlt.trans_le (hlists l hl d hd)).ne'
        · rw [if_pos heq] at hfound
          cases hfound
      · rw [find_cons, hfind, latest_remaining h.sorted hlists, hbkey]
        by_cases hk' : k' = k
        · rw [hk', if_pos rfl, hb]
        · rw [if_neg (Ne.symm hk'), if_neg hk']

end Lockstep.Library.KWayMerge
