import Mathlib

/-!
# First occurrences

`firsts` keeps the first occurrence of every item of a list.
-/

namespace Lockstep.Library.FirstOccurrences

open List

variable {α β : Type*}

/-! ### What a filter keeps -/

variable {a b : α}

lemma pair_sublist_filter_iff {p : α → Bool} {items : List α} :
    [a, b] <+ items.filter p ↔ [a, b] <+ items ∧ p a = true ∧ p b = true := by
  constructor
  · intro h
    have hp := h.subset
    exact ⟨h.trans filter_sublist, (mem_filter.mp (hp (by simp))).2,
      (mem_filter.mp (hp (by simp))).2⟩
  · rintro ⟨h, ha, hb⟩
    have hfilter := h.filter p
    simpa [ha, hb] using hfilter

lemma mem_of_prefix_of_pair {front items : List α} (h : front <+: items)
    (hnodup : items.Nodup) (hpair : [a, b] <+ items) (hb : b ∈ front) : a ∈ front := by
  obtain ⟨rest, rfl⟩ := h
  obtain ⟨first, second, heq, hfirst, hsecond⟩ := sublist_append_iff.mp hpair
  have hdisjoint := disjoint_of_nodup_append hnodup
  match first, heq with
  | [], heq =>
    rw [nil_append] at heq
    exact absurd (hsecond.subset (heq ▸ by simp)) (hdisjoint hb)
  | [c], heq =>
    obtain ⟨rfl, hrest⟩ := cons.inj heq
    exact hfirst.subset mem_cons_self
  | c :: d :: rest, heq =>
    obtain ⟨rfl, -⟩ := cons.inj heq
    exact hfirst.subset mem_cons_self

/-- What an earlier filter kept is a prefix of what a later one keeps, with new items after it,
exactly if the later one lets no item through before one that was kept. -/
theorem filter_prefix_iff {items more : List α} {kept now : α → Bool}
    (hnodup : (items ++ more).Nodup) (hmono : ∀ a, kept a = true → now a = true) :
    items.filter kept <+: items.filter now ++ more ↔
      ∀ a b, [a, b] <+ items → kept b = true → now a = true → kept a = true := by
  constructor
  · intro h a b hpair hb ha
    have hall : (items.filter now ++ more).Nodup :=
      hnodup.sublist (filter_sublist.append_right more)
    have hnow : [a, b] <+ items.filter now ++ more :=
      (pair_sublist_filter_iff.mpr ⟨hpair, ha, hmono b hb⟩).trans (sublist_append_left _ _)
    have hmem : b ∈ items.filter kept :=
      mem_filter.mpr ⟨hpair.subset (by simp), hb⟩
    exact (mem_filter.mp (mem_of_prefix_of_pair h hall hnow hmem)).2
  · intro h
    refine List.IsPrefix.trans ?_ (prefix_append _ _)
    clear hnodup
    induction items with
    | nil => exact prefix_rfl
    | cons a items ih =>
      have hrest := ih fun b c hpair ↦ h b c (hpair.trans (sublist_cons_self _ _))
      by_cases hkept : kept a = true
      · rw [filter_cons_of_pos hkept, filter_cons_of_pos (hmono a hkept)]
        exact (prefix_cons_inj a).mpr hrest
      rw [filter_cons_of_neg hkept]
      by_cases hnow : now a = true
      · -- Nothing after a new item was kept.
        have hnil : items.filter kept = [] := by
          refine filter_eq_nil_iff.mpr fun b hb hkb ↦ hkept ?_
          exact h a b ((singleton_sublist.mpr hb).cons_cons a) hkb hnow
        rw [hnil]
        exact nil_prefix
      · rw [filter_cons_of_neg hnow]
        exact hrest

/-! ### First occurrences -/

variable [DecidableEq α]

def firsts : List α → List α
  | [] => []
  | a :: items => a :: (firsts items).filter (· ≠ a)

lemma mem_firsts {a : α} {items : List α} : a ∈ firsts items ↔ a ∈ items := by
  induction items with
  | nil => rfl
  | cons b items ih =>
    rw [firsts, mem_cons, mem_cons, mem_filter, ih, decide_eq_true_iff]
    by_cases hab : a = b
    · simp [hab]
    · simp only [hab, false_or, ne_eq, not_false_eq_true, and_true]

lemma nodup_firsts (items : List α) : (firsts items).Nodup := by
  induction items with
  | nil => exact nodup_nil
  | cons a items ih =>
    refine nodup_cons.mpr ⟨fun hmem ↦ ?_, ih.filter _⟩
    exact of_decide_eq_true (mem_filter.mp hmem).2 rfl

lemma firsts_append (items more : List α) :
    firsts (items ++ more) = firsts items ++ (firsts more).filter (· ∉ items) := by
  induction items with
  | nil => simp [firsts]
  | cons a items ih =>
    rw [cons_append, firsts, firsts, ih, filter_append, filter_filter, cons_append]
    congr 2
    refine filter_congr fun b _ ↦ ?_
    simp [not_or]

lemma foldl_place_eq (p : α → Bool) (items : List α) :
    items.foldl (fun order a ↦ if a ∈ order then order else if p a then order ++ [a] else order) []
      = (firsts items).filter p := by
  induction items using reverseRecOn with
  | nil => rfl
  | append_singleton items a ih =>
    rw [foldl_append, ih, firsts_append, filter_append]
    simp only [foldl_cons, foldl_nil, firsts, filter_nil, mem_filter, mem_firsts]
    by_cases hmem : a ∈ items
    · by_cases hp : p a = true
      · simp [hmem, hp]
      · simp [hmem, hp]
    · by_cases hp : p a = true
      · simp [hmem, hp]
      · simp [hmem, hp]

/-- One label's first occurrence comes before another's exactly if an item of the first label
precedes every item of the second. -/
theorem pair_sublist_firsts_iff {R : β → β → Prop} (hasymm : ∀ x y, R x y → ¬ R y x)
    {label : β → α} {items : List β} (h : items.Pairwise R) :
    [a, b] <+ firsts (items.map label) ↔ a ≠ b ∧ (∃ y ∈ items, label y = b) ∧
      ∃ x ∈ items, label x = a ∧ ∀ y ∈ items, label y = b → R x y := by
  induction items with
  | nil => simp [firsts]
  | cons z items ih =>
    obtain ⟨hz, hitems⟩ := pairwise_cons.mp h
    rw [map_cons, firsts]
    constructor
    · intro hsub
      rcases sublist_cons_iff.mp hsub with hrest | ⟨rest, heq, hrest⟩
      · obtain ⟨hpair, ha, hb⟩ := pair_sublist_filter_iff.mp hrest
        obtain ⟨hne, ⟨y, hy, hylabel⟩, x, hx, hxlabel, hfirst⟩ := (ih hitems).mp hpair
        refine ⟨hne, ⟨y, mem_cons_of_mem _ hy, hylabel⟩, x, mem_cons_of_mem _ hx,
          hxlabel, fun w hw hwlabel ↦ ?_⟩
        rcases mem_cons.mp hw with rfl | hw
        · exact absurd hwlabel.symm (of_decide_eq_true hb)
        · exact hfirst w hw hwlabel
      · obtain ⟨rfl, rfl⟩ := cons.inj heq
        have hb := singleton_sublist.mp hrest
        obtain ⟨hmem, hne⟩ := mem_filter.mp hb
        have hne := of_decide_eq_true hne
        obtain ⟨y, hy, hylabel⟩ := mem_map.mp (mem_firsts.mp hmem)
        refine ⟨fun heq ↦ hne heq.symm, ⟨y, mem_cons_of_mem _ hy, hylabel⟩, z,
          mem_cons_self, rfl, fun w hw hwlabel ↦ ?_⟩
        rcases mem_cons.mp hw with rfl | hw
        · exact absurd hwlabel.symm hne
        · exact hz w hw
    · rintro ⟨hne, ⟨y, hy, hylabel⟩, x, hx, hxlabel, hfirst⟩
      have hb : label z ≠ b → b ∈ firsts (items.map label) := by
        intro hzb
        refine mem_firsts.mpr (mem_map.mpr ⟨y, ?_, hylabel⟩)
        exact (mem_cons.mp hy).resolve_left fun hyz ↦ hzb (hyz ▸ hylabel)
      by_cases hza : label z = a
      · subst hza
        refine List.Sublist.cons_cons _ (singleton_sublist.mpr ?_)
        exact mem_filter.mpr ⟨hb hne, decide_eq_true hne.symm⟩
      have hx : x ∈ items :=
        (mem_cons.mp hx).resolve_left fun hxz ↦ hza (hxz ▸ hxlabel)
      -- The first item cannot have the second label: the item of the first label precedes it.
      have hzb : label z ≠ b := by
        intro hzb
        exact hasymm _ _ (hz x hx) (hfirst z mem_cons_self hzb)
      refine List.Sublist.cons _ (pair_sublist_filter_iff.mpr ⟨?_, ?_, ?_⟩)
      · obtain ⟨w, hw, hwlabel⟩ := mem_map.mp (mem_firsts.mp (hb hzb))
        exact (ih hitems).mpr ⟨hne, ⟨w, hw, hwlabel⟩, x, hx, hxlabel,
          (forall_mem_cons.mp hfirst).2⟩
      · exact decide_eq_true (Ne.symm hza)
      · exact decide_eq_true hzb.symm

end Lockstep.Library.FirstOccurrences
