import Mathlib.Data.List.Induction
import Mathlib.Tactic.Common

/-!
# The newest of a list of numbered items

`newest seq items` is the item with the largest number, and the last of those when several have it.
It is a fold of `later`, which is associative, so the newest item of a concatenation is the later of
the newest items of its parts (`newest_append`).
-/

namespace Lockstep.Library.Newest

open List Option

variable {α : Type*} (seq : α → ℕ)

variable {items : List α} {item : α}

/-- The one of two answers with the larger number, and the second when they are equal. -/
def later : Option α → Option α → Option α
  | none, second => second
  | some first, none => some first
  | some first, some second => if seq first ≤ seq second then some second else some first

def newest (items : List α) : Option α :=
  items.foldl (fun best item ↦ later seq best (some item)) none

variable {seq}

@[simp]
lemma later_none_left (second : Option α) : later seq none second = second := rfl

@[simp]
lemma later_none_right (first : Option α) : later seq first none = first := by
  cases first <;> rfl

lemma later_assoc (first second third : Option α) :
    later seq (later seq first second) third = later seq first (later seq second third) := by
  rcases first with _ | first
  · rfl
  rcases second with _ | second
  · rfl
  rcases third with _ | third
  · rw [later_none_right, later_none_right]
  by_cases h₁ : seq first ≤ seq second <;> by_cases h₂ : seq second ≤ seq third <;>
    by_cases h₃ : seq first ≤ seq third <;> simp [later, h₁, h₂, h₃] <;> omega

lemma foldl_later (items : List α) (first : Option α) :
    items.foldl (fun best item ↦ later seq best (some item)) first =
      later seq first (newest seq items) := by
  induction items generalizing first with
  | nil => rw [foldl_nil, newest, foldl_nil, later_none_right]
  | cons item items ih =>
    rw [newest, foldl_cons, foldl_cons, ih, ih, later_none_left, later_assoc]

@[simp]
lemma newest_nil : newest seq ([] : List α) = none := rfl

lemma newest_cons (item : α) (items : List α) :
    newest seq (item :: items) = later seq (some item) (newest seq items) := by
  rw [newest, foldl_cons, foldl_later, later_none_left]

lemma newest_append (first second : List α) :
    newest seq (first ++ second) = later seq (newest seq first) (newest seq second) := by
  rw [newest, foldl_append, foldl_later]
  rfl

lemma newest_flatMap {β : Type*} (sources : List β) (items : β → List α) :
    newest seq (sources.flatMap items) =
      sources.foldl (fun best source ↦ later seq best (newest seq (items source))) none := by
  suffices ∀ first, later seq first (newest seq (sources.flatMap items)) =
      sources.foldl (fun best source ↦ later seq best (newest seq (items source))) first by
    exact (later_none_left _).symm.trans (this none)
  induction sources with
  | nil => exact fun first ↦ later_none_right first
  | cons source sources ih =>
    intro first
    rw [flatMap_cons, newest_append, ← later_assoc, ih, foldl_cons]

/-! ### Which item it is -/

variable {first second : Option α}

lemma later_eq_some (h : later seq first second = some item) :
    first = some item ∨ second = some item := by
  rcases first with _ | first
  · exact .inr h
  rcases second with _ | second
  · exact .inl h
  rw [later] at h
  split_ifs at h with hle
  · exact .inr h
  · exact .inl h

lemma le_of_later {other : α} (h : later seq first second = some item)
    (hother : first = some other ∨ second = some other) : seq other ≤ seq item := by
  rcases first with _ | first
  · simp_all
  rcases second with _ | second
  · simp_all
  rw [later] at h
  split_ifs at h with hle
  · obtain rfl := some.inj h
    rcases hother with hother | hother <;> obtain rfl := some.inj hother
    · exact hle
    · exact Nat.le_refl _
  · obtain rfl := some.inj h
    rcases hother with hother | hother <;> obtain rfl := some.inj hother
    · exact Nat.le_refl _
    · exact Nat.le_of_not_le hle

lemma newest_eq_none : newest seq items = none ↔ items = [] := by
  refine ⟨fun h ↦ ?_, fun h ↦ h ▸ rfl⟩
  rcases items with _ | ⟨item, items⟩
  · rfl
  rw [newest_cons] at h
  cases hrest : newest seq items with
  | none => simp [hrest] at h
  | some other =>
    rw [hrest, later] at h
    split_ifs at h

lemma newest_mem (h : newest seq items = some item) : item ∈ items := by
  induction items generalizing item with
  | nil => cases h
  | cons first items ih =>
    rw [newest_cons] at h
    rcases later_eq_some h with hfirst | hrest
    · cases hfirst
      exact mem_cons_self
    · exact mem_cons_of_mem first (ih hrest)

lemma le_newest {other : α} (h : newest seq items = some item) (hother : other ∈ items) :
    seq other ≤ seq item := by
  induction items generalizing item with
  | nil => cases hother
  | cons first items ih =>
    rw [newest_cons] at h
    rcases mem_cons.mp hother with rfl | hmem
    · exact le_of_later h (.inl rfl)
    cases hrest : newest seq items with
    | none =>
      rw [newest_eq_none] at hrest
      exact absurd hmem (hrest ▸ not_mem_nil)
    | some best => exact Nat.le_trans (ih hrest hmem) (le_of_later h (.inr hrest))

lemma newest_isSome (h : item ∈ items) : ∃ best, newest seq items = some best := by
  rw [← ne_none_iff_exists']
  intro hnone
  rw [newest_eq_none] at hnone
  exact not_mem_nil (hnone ▸ h)

lemma newest_eq_some_iff (hinj : ∀ a ∈ items, ∀ b ∈ items, seq a = seq b → a = b) :
    newest seq items = some item ↔ item ∈ items ∧ ∀ other ∈ items, seq other ≤ seq item := by
  constructor
  · exact fun h ↦ ⟨newest_mem h, fun other hother ↦ le_newest h hother⟩
  · rintro ⟨hmem, hmax⟩
    obtain ⟨best, hbest⟩ : ∃ best, newest seq items = some best := newest_isSome hmem
    have heq := Nat.le_antisymm (hmax best (newest_mem hbest)) (le_newest hbest hmem)
    rw [hbest, hinj best (newest_mem hbest) item hmem heq]

lemma newest_related {β : Type*} {seq' : β → ℕ} {related : α → β → Prop} {first : List α}
    {second : List β} (hseq : ∀ a b, related a b → seq a = seq' b)
    (hinj : ∀ b ∈ second, ∀ b' ∈ second, seq' b = seq' b' → b = b')
    (hforth : ∀ a ∈ first, ∃ b ∈ second, related a b)
    (hback : ∀ b ∈ second, ∃ a ∈ first, related a b) :
    Option.Rel related (newest seq first) (newest seq' second) := by
  cases hfirst : newest seq first with
  | none =>
    rw [newest_eq_none] at hfirst
    have hsecond : second = [] := by
      refine eq_nil_iff_forall_not_mem.mpr fun b hb ↦ ?_
      obtain ⟨a, ha, -⟩ := hback b hb
      exact not_mem_nil (hfirst ▸ ha)
    rw [hsecond]
    exact Option.Rel.none
  | some a =>
    obtain ⟨b, hb, hab⟩ := hforth a (newest_mem hfirst)
    have hnewest : newest seq' second = some b := by
      refine (newest_eq_some_iff hinj).mpr ⟨hb, fun b' hb' ↦ ?_⟩
      obtain ⟨a', ha', hab'⟩ := hback b' hb'
      rw [← hseq a b hab, ← hseq a' b' hab']
      exact le_newest hfirst ha'
    rw [hnewest]
    exact Option.Rel.some hab

lemma newest_eq_getLast? (hasc : items.Pairwise fun a b ↦ seq a ≤ seq b) :
    newest seq items = items.getLast? := by
  induction items using reverseRecOn with
  | nil => rfl
  | append_singleton items item ih =>
    rw [pairwise_append] at hasc
    rw [newest_append, ih hasc.1, getLast?_concat]
    cases hlast : items.getLast? with
    | none => rfl
    | some other =>
      have hle := hasc.2.2 other (mem_of_getLast? hlast) item mem_cons_self
      change later seq (some other) (some item) = some item
      rw [later, if_pos hle]

lemma getLast?_takeWhile (hasc : items.Pairwise fun a b ↦ seq a ≤ seq b) (bound : ℕ) :
    (items.takeWhile fun a ↦ seq a ≤ bound).getLast? =
      newest seq (items.filter fun a ↦ seq a ≤ bound) := by
  have hfilter : items.filter (fun a ↦ seq a ≤ bound) =
      items.takeWhile fun a ↦ seq a ≤ bound := by
    induction items with
    | nil => rfl
    | cons first items ih =>
      obtain ⟨hfirst, hrest⟩ := pairwise_cons.mp hasc
      by_cases hle : seq first ≤ bound
      · rw [filter_cons, takeWhile_cons, ih hrest, decide_eq_true hle]
        rfl
      rw [takeWhile_cons_of_neg (by simpa using hle), filter_eq_nil_iff]
      intro d hd hseq
      rcases mem_cons.mp hd with rfl | hmem
      · exact hle (of_decide_eq_true hseq)
      · exact hle (Nat.le_trans (hfirst d hmem) (of_decide_eq_true hseq))
  rw [← hfilter, newest_eq_getLast? (hasc.filter _)]

end Lockstep.Library.Newest
