import Mathlib.Data.List.Sort
import Lockstep.Library.Newest

/-!
# Lists sorted by key

A list of items with strictly ascending keys is a finite map: it holds at most one item of a key
(`find`), and two such lists that find the same items are equal (`Sorted.ext`).
-/

namespace Lockstep.Library.SortedByKey

open Newest List

variable {α K : Type*} [LinearOrder K] (key : α → K) (seq : α → ℕ)

def Sorted (items : List α) : Prop := items.Pairwise fun a b ↦ key a < key b

def find (k : K) (items : List α) : Option α := items.find? fun a ↦ key a = k

/-- The held item or the incoming one of the same key. -/
def pick (held incoming : α) : α := if seq held ≤ seq incoming then incoming else held

def upsert (item : α) : List α → List α
  | [] => [item]
  | a :: items =>
    if key item < key a then item :: a :: items
    else if key a < key item then a :: upsert item items
    else pick seq a item :: items

def mergeAt (a : α) (rest : List α → List α) (all : List α) : List α → List α
  | [] => all
  | b :: run =>
    if key a < key b then a :: rest (b :: run)
    else if key b < key a then b :: mergeAt a rest all run
    else pick seq a b :: rest run

def merge : List α → List α → List α
  | [] => fun run ↦ run
  | a :: items => mergeAt key seq a (merge items) (a :: items)

variable {key seq}

/-! ### Finding -/

@[simp]
lemma find_nil (k : K) : find key k ([] : List α) = none := rfl

lemma find_cons (k : K) (a : α) (items : List α) :
    find key k (a :: items) = if key a = k then some a else find key k items := by
  rw [find, find?_cons]
  split_ifs with heq <;> simp [heq, find]

lemma find_append (k : K) (first second : List α) :
    find key k (first ++ second) = (find key k first).or (find key k second) :=
  find?_append

variable {items : List α} {k : K}

lemma find_eq_none_iff : find key k items = none ↔ ∀ a ∈ items, key a ≠ k := by
  rw [find, find?_eq_none]
  simp

lemma key_of_find {a : α} (h : find key k items = some a) : key a = k := by
  have hdecide := find?_some h
  exact of_decide_eq_true hdecide

lemma mem_of_find {a : α} (h : find key k items = some a) : a ∈ items :=
  mem_of_find?_eq_some h

namespace Sorted

variable {a : α} {items : List α}

section

variable (h : Sorted key (a :: items))

include h

lemma tail : Sorted key items := (pairwise_cons.mp h).2

lemma lt_of_mem {b : α} (hb : b ∈ items) : key a < key b :=
  (pairwise_cons.mp h).1 b hb

lemma le_of_mem : ∀ b ∈ a :: items, key a ≤ key b :=
  forall_mem_cons.mpr ⟨le_rfl, fun _ hb ↦ (h.lt_of_mem hb).le⟩

lemma find_of_lt (hk : k < key a) : find key k (a :: items) = none :=
  find_eq_none_iff.mpr fun b hb ↦ (hk.trans_le (h.le_of_mem b hb)).ne'

lemma find_tail_self : find key (key a) items = none :=
  find_eq_none_iff.mpr fun _ hb ↦ (h.lt_of_mem hb).ne'

end

lemma find_of_mem (h : Sorted key items) {b : α} (hb : b ∈ items) :
    find key (key b) items = some b := by
  induction items with
  | nil => cases hb
  | cons a items ih =>
    rw [find_cons]
    rcases mem_cons.mp hb with rfl | hmem
    · rw [if_pos rfl]
    · rw [if_neg (h.lt_of_mem hmem).ne, ih h.tail hmem]

variable {first second : List α}

lemma eq_of_mem_iff (hfirst : Sorted key first)
    (hsecond : Sorted key second) (hmem : ∀ a, a ∈ first ↔ a ∈ second) : first = second := by
  have : Std.Irrefl fun a b ↦ key a < key b := ⟨fun a ↦ lt_irrefl (key a)⟩
  have : Std.Antisymm fun a b ↦ key a < key b := ⟨fun _ _ h h' ↦ absurd h' h.asymm⟩
  exact Pairwise.eq_of_mem_iff hfirst hsecond hmem

lemma ext (hfirst : Sorted key first) (hsecond : Sorted key second)
    (hfind : ∀ k, find key k first = find key k second) : first = second := by
  refine hfirst.eq_of_mem_iff hsecond fun a ↦ ⟨fun h ↦ ?_, fun h ↦ ?_⟩
  · exact mem_of_find (hfind (key a) ▸ hfirst.find_of_mem h)
  · exact mem_of_find (hfind (key a) ▸ hsecond.find_of_mem h)

end Sorted

/-! ### Inserting -/

omit [LinearOrder K] in
lemma key_pick {held incoming : α} (h : key held = key incoming) :
    key (pick seq held incoming) = key held := by
  rw [pick]
  split_ifs
  · exact h.symm
  · rfl

lemma later_some_some (held incoming : α) :
    later seq (some held) (some incoming) = some (pick seq held incoming) := by
  rw [later, pick]
  split_ifs <;> rfl

lemma mem_upsert {item b : α} (hb : b ∈ upsert key seq item items) : b = item ∨ b ∈ items := by
  induction items with
  | nil => exact .inl (mem_singleton.mp hb)
  | cons a items ih =>
    rw [upsert] at hb
    split_ifs at hb
    · rcases mem_cons.mp hb with rfl | hmem
      · exact .inl rfl
      · exact .inr hmem
    · rcases mem_cons.mp hb with rfl | hmem
      · exact .inr mem_cons_self
      · exact (ih hmem).imp_right (mem_cons_of_mem a)
    · rcases mem_cons.mp hb with rfl | hmem
      · rw [pick]
        split_ifs
        · exact .inl rfl
        · exact .inr mem_cons_self
      · exact .inr (mem_cons_of_mem a hmem)

lemma Sorted.upsert {item : α} (h : Sorted key items) :
    Sorted key (upsert key seq item items) := by
  induction items with
  | nil => exact pairwise_singleton _ _
  | cons a items ih =>
    rw [SortedByKey.upsert]
    split_ifs with hlt hgt
    · refine pairwise_cons.mpr ⟨fun b hb ↦ ?_, h⟩
      exact hlt.trans_le (h.le_of_mem b hb)
    · refine pairwise_cons.mpr ⟨fun b hb ↦ ?_, ih h.tail⟩
      rcases mem_upsert hb with rfl | hmem
      · exact hgt
      · exact h.lt_of_mem hmem
    · have heq : key a = key item := le_antisymm (not_lt.mp hlt) (not_lt.mp hgt)
      refine pairwise_cons.mpr ⟨fun b hb ↦ ?_, h.tail⟩
      rw [key_pick heq]
      exact h.lt_of_mem hb

lemma find_upsert {item : α} (h : Sorted key items) (k : K) :
    find key k (upsert key seq item items) =
      if key item = k then later seq (find key k items) (some item) else find key k items := by
  induction items with
  | nil => rw [upsert, find_cons, find_nil, later_none_left]
  | cons a items ih =>
    rw [upsert]
    split_ifs with hlt hk hgt hk hk
    · subst hk
      rw [find_cons, if_pos rfl, h.find_of_lt hlt, later_none_left]
    · rw [find_cons, if_neg hk]
    · subst hk
      rw [find_cons, find_cons, if_neg hgt.ne, if_neg hgt.ne, ih h.tail, if_pos rfl]
    · rw [find_cons, find_cons, ih h.tail, if_neg hk]
    · subst hk
      have heq : key a = key item := le_antisymm (not_lt.mp hlt) (not_lt.mp hgt)
      rw [find_cons, find_cons, if_pos heq, if_pos ((key_pick heq).trans heq), later_some_some]
    · have heq : key a = key item := le_antisymm (not_lt.mp hlt) (not_lt.mp hgt)
      rw [← heq] at hk
      rw [find_cons, find_cons, if_neg hk, key_pick heq, if_neg hk]

lemma find_foldl_upsert {run items : List α} (h : Sorted key items) :
    Sorted key (run.foldl (fun items item ↦ upsert key seq item items) items) ∧
      ∀ (k : K) (p : α → Bool), (∀ a, p a = true ↔ key a = k) →
        find key k (run.foldl (fun items item ↦ upsert key seq item items) items) =
          later seq (find key k items) (newest seq (run.filter p)) := by
  induction run generalizing items with
  | nil => exact ⟨h, fun k p hp ↦ (later_none_right _).symm⟩
  | cons item run ih =>
    obtain ⟨hsorted, hfind⟩ := ih h.upsert
    refine ⟨hsorted, fun k p hp ↦ ?_⟩
    rw [foldl_cons, hfind k p hp, find_upsert h]
    by_cases hk : key item = k
    · rw [if_pos hk, filter_cons_of_pos ((hp item).mpr hk), newest_cons, later_assoc]
    · rw [if_neg hk, filter_cons_of_neg (mt (hp item).mp hk)]

/-! ### Merging -/

lemma Sorted.newest_filter (h : Sorted key items) {p : α → Bool}
    (hp : ∀ a, p a = true ↔ key a = k) : newest seq (items.filter p) = find key k items := by
  induction items with
  | nil => rfl
  | cons a items ih =>
    rw [find_cons]
    by_cases hk : key a = k
    · rw [filter_cons_of_pos ((hp a).mpr hk), newest_cons, ih h.tail, ← hk,
        h.find_tail_self, later_none_right, if_pos rfl]
    · rw [filter_cons_of_neg (mt (hp a).mp hk), ih h.tail, if_neg hk]

lemma merge_spec {items run : List α} (hitems : Sorted key items) (hrun : Sorted key run) :
    Sorted key (merge key seq items run) ∧
      ∀ k, find key k (merge key seq items run) =
        later seq (find key k items) (find key k run) := by
  induction items generalizing run with
  | nil => exact ⟨hrun, fun k ↦ rfl⟩
  | cons a items ih =>
    rw [merge]
    induction run with
    | nil => exact ⟨hitems, fun k ↦ (later_none_right _).symm⟩
    | cons b run ihrun =>
      -- The keys of a merge that finds nothing up to some key are above it.
      have habove : ∀ {k : K} {rest : List α}, Sorted key rest →
          (∀ k', k' ≤ k → find key k' rest = none) → ∀ c ∈ rest, k < key c := by
        intro k rest hrest hnone c hc
        by_contra hle
        have hfound := hrest.find_of_mem hc
        rw [hnone _ (not_lt.mp hle)] at hfound
        cases hfound
      rw [mergeAt]
      split_ifs with hlt hgt
      · obtain ⟨hsorted, hfind⟩ := ih hitems.tail hrun
        refine ⟨pairwise_cons.mpr ⟨habove hsorted fun k' hk' ↦ ?_, hsorted⟩, fun k ↦ ?_⟩
        · rw [hfind, hrun.find_of_lt (hk'.trans_lt hlt), later_none_right, find_eq_none_iff]
          exact fun c hc ↦ (hk'.trans_lt (hitems.lt_of_mem hc)).ne'
        rw [find_cons, find_cons k a items, hfind]
        split_ifs with hk
        · subst hk
          rw [hrun.find_of_lt hlt, later_none_right]
        · rfl
      · obtain ⟨hsorted, hfind⟩ := ihrun hrun.tail
        refine ⟨pairwise_cons.mpr ⟨habove hsorted fun k' hk' ↦ ?_, hsorted⟩, fun k ↦ ?_⟩
        · rw [hfind, hitems.find_of_lt (hk'.trans_lt hgt), later_none_left, find_eq_none_iff]
          exact fun c hc ↦ (hk'.trans_lt (hrun.lt_of_mem hc)).ne'
        rw [find_cons, find_cons k b run, hfind]
        split_ifs with hk
        · subst hk
          rw [hitems.find_of_lt hgt, later_none_left]
        · rfl
      · have heq : key a = key b := le_antisymm (not_lt.mp hgt) (not_lt.mp hlt)
        obtain ⟨hsorted, hfind⟩ := ih hitems.tail hrun.tail
        refine ⟨pairwise_cons.mpr ⟨?_, hsorted⟩, fun k ↦ ?_⟩
        · rw [key_pick heq]
          refine habove hsorted fun k' hk' ↦ ?_
          rw [hfind, find_eq_none_iff.mpr fun c hc ↦ (hk'.trans_lt (hitems.lt_of_mem hc)).ne',
            later_none_left, find_eq_none_iff]
          exact fun c hc ↦ ((heq ▸ hk').trans_lt (hrun.lt_of_mem hc)).ne'
        · rw [find_cons, key_pick heq, find_cons k a items, find_cons k b run, hfind, ← heq]
          split_ifs with hk
          · rw [later_some_some]
          · rfl

end Lockstep.Library.SortedByKey
