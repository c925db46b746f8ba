import Mathlib.Data.List.Sort

/-!
# A stable sort

Insertion sort by a total preorder is stable: of two items that compare equal, the one that stood
first stays first. So when the items stood in the order of some relation, the sorted list is in the
lexicographic order of the preorder and that relation (`pairwise_sort`).
-/

namespace Lockstep.Library.StableSort

open List

variable {α : Type*} (r : α → α → Prop) [DecidableRel r] {before : α → α → Prop}

lemma pairwise_orderedInsert [Std.Total r] [IsTrans α r] {a : α}
    {items : List α} (hsorted : items.Pairwise fun x y ↦ r x y ∧ (r y x → before x y))
    (hfirst : ∀ x ∈ items, before a x) :
    (items.orderedInsert r a).Pairwise fun x y ↦ r x y ∧ (r y x → before x y) := by
  induction items with
  | nil => exact pairwise_singleton _ _
  | cons b items ih =>
    obtain ⟨hb, hitems⟩ := pairwise_cons.mp hsorted
    rw [orderedInsert_cons]
    split_ifs with hab
    · refine pairwise_cons.mpr ⟨fun x hx ↦ ⟨?_, fun _ ↦ hfirst x hx⟩, hsorted⟩
      rcases mem_cons.mp hx with rfl | hx
      · exact hab
      · exact IsTrans.trans _ _ _ hab (hb x hx).1
    · refine pairwise_cons.mpr ⟨fun x hx ↦ ?_, ih hitems fun x hx ↦ ?_⟩
      · rcases (mem_orderedInsert r).mp hx with rfl | hx
        · exact ⟨(Std.Total.total b x).resolve_right hab, fun hxb ↦ absurd hxb hab⟩
        · exact hb x hx
      · exact hfirst x (mem_cons_of_mem _ hx)

lemma pairwise_sort [Std.Total r] [IsTrans α r] {items : List α} (h : items.Pairwise before) :
    (items.insertionSort r).Pairwise fun x y ↦ r x y ∧ (r y x → before x y) := by
  induction items with
  | nil => exact List.Pairwise.nil
  | cons a items ih =>
    obtain ⟨hfirst, hitems⟩ := pairwise_cons.mp h
    refine pairwise_orderedInsert r (ih hitems) fun x hx ↦ ?_
    exact hfirst x ((mem_insertionSort r).mp hx)

end Lockstep.Library.StableSort
