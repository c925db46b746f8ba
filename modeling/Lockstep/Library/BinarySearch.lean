import Mathlib.Data.List.TakeWhile
import Mathlib.Tactic.Common

/-!
# Binary search for the last position that holds

`loop` searches the positions from `lo` up to `hi`, exclusive, for the last one with a property that
holds up to some cut and not from there on.
-/

namespace Lockstep.Library.BinarySearch

def loop (holds : ℕ → Bool) : ℕ → ℕ → ℕ → Option ℕ → Option ℕ
  | 0, _, _, ans => ans
  | fuel + 1, lo, hi, ans =>
    if lo < hi then
      let mid := lo + (hi - 1 - lo) / 2
      if holds mid then loop holds fuel (mid + 1) hi (some mid)
      else loop holds fuel lo mid ans
    else ans

/-- The position before another one. -/
def before : ℕ → Option ℕ
  | 0 => none
  | pos + 1 => some pos

lemma loop_eq_before {holds : ℕ → Bool} {cut top : ℕ}
    (hcut : ∀ pos < top, holds pos = true ↔ pos < cut) {fuel lo hi : ℕ} (hlo : lo ≤ cut)
    (hhi : cut ≤ hi) (htop : hi ≤ top) (hfuel : hi - lo ≤ fuel) :
    loop holds fuel lo hi (before lo) = before cut := by
  induction fuel generalizing lo hi with
  | zero =>
    obtain rfl : lo = cut := by omega
    rfl
  | succ fuel ih =>
    rw [loop]
    by_cases hlt : lo < hi
    · -- The middle is inside the range, so one half remains.
      have hmid : lo + (hi - 1 - lo) / 2 < hi := by omega
      rw [if_pos hlt]
      dsimp only
      split_ifs with hholds
      · have hbelow := (hcut _ (hmid.trans_le htop)).mp hholds
        exact ih hbelow hhi htop (by omega)
      · have habove := mt (hcut _ (hmid.trans_le htop)).mpr hholds
        exact ih hlo (by omega) (by omega) (by omega)
    · obtain rfl : lo = cut := by omega
      rw [if_neg hlt]

lemma lt_length_takeWhile_iff {α : Type*} {holds : α → Bool} {items : List α}
    (hclosed : items.Pairwise fun first second ↦ holds second = true → holds first = true)
    {pos : ℕ} {item : α} (hitem : items[pos]? = some item) :
    holds item = true ↔ pos < (items.takeWhile holds).length := by
  induction items generalizing pos with
  | nil => simp at hitem
  | cons first items ih =>
    rw [List.pairwise_cons] at hclosed
    rcases pos with _ | pos
    · obtain rfl : first = item := by simpa using hitem
      by_cases hfirst : holds first = true <;> simp [hfirst]
    have hrest : items[pos]? = some item := by simpa using hitem
    by_cases hfirst : holds first = true
    · rw [ih hclosed.2 hrest, List.takeWhile_cons_of_pos hfirst, List.length_cons]
      omega
    · have hitem := mt (hclosed.1 item (List.mem_of_getElem? hrest)) hfirst
      simp [hfirst, hitem]

end Lockstep.Library.BinarySearch
