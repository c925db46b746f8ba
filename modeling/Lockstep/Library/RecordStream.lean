import Mathlib.Algebra.Order.BigOperators.Group.List
import Lockstep.Library.ByteCodec

/-!
# Records back to back

A record decoder takes one record off the front of a byte list and returns it with the bytes that
follow, or fails. `scan` folds a step function over the records of a byte list until the bytes are
used up, a record fails to decode, or the step refuses it; `steps` is the same fold over records
already decoded, and `front` the records it is over.

On the concatenated encodings of records that each decode, `decodeAll` returns the records
(`decodeAll_flatMap`) and `scan` is `steps` (`scan_flatMap`).
-/

namespace Lockstep.Library.RecordStream

open List

variable {α σ : Type*}

variable {step : σ → α → Option σ} {cut fuel : ℕ}

/-- The records of a byte list, when it is nothing but records. -/
def decodeAll (item : List UInt8 → Option (α × List UInt8)) : ℕ → List UInt8 → Option (List α)
  | _, [] => some []
  | 0, _ :: _ => none
  | fuel + 1, bytes =>
    match item bytes with
    | none => none
    | some (a, rest) => (decodeAll item fuel rest).map (a :: ·)

/-- The state after the records at the front of a byte list. -/
def scan (item : List UInt8 → Option (α × List UInt8)) (step : σ → α → Option σ) :
    ℕ → List UInt8 → σ → σ
  | 0, _, state => state
  | fuel + 1, bytes, state =>
    match item bytes with
    | none => state
    | some (a, rest) =>
      match step state a with
      | none => state
      | some next => scan item step fuel rest next

/-- The state after the records up to the first one the step refuses. -/
def steps (step : σ → α → Option σ) : List α → σ → σ
  | [], state => state
  | a :: items, state =>
    match step state a with
    | none => state
    | some next => steps step items next

/-- The records at the front of a byte list, up to the first that fails to decode. -/
def front (item : List UInt8 → Option (α × List UInt8)) : ℕ → List UInt8 → List α
  | 0, _ => []
  | fuel + 1, bytes =>
    match item bytes with
    | none => []
    | some (a, rest) => a :: front item fuel rest

lemma scan_eq_steps (item : List UInt8 → Option (α × List UInt8)) (step : σ → α → Option σ)
    (fuel : ℕ) (bytes : List UInt8) (state : σ) :
    scan item step fuel bytes state = steps step (front item fuel bytes) state := by
  induction fuel generalizing bytes state with
  | zero => rfl
  | succ fuel ih =>
    rw [scan, front]
    cases item bytes with
    | none => rfl
    | some read =>
      dsimp only
      rw [steps]
      cases step state read.1 with
      | none => rfl
      | some next => exact ih read.2 next

variable (invariant : σ → Prop)

lemma steps_keeps {items : List α}
    (hstep : ∀ state, ∀ a ∈ items, ∀ next, invariant state → step state a = some next →
      invariant next) {state : σ} (hstate : invariant state) :
    invariant (steps step items state) := by
  induction items generalizing state with
  | nil => exact hstate
  | cons a items ih =>
    rw [steps]
    cases hnext : step state a with
    | none => exact hstate
    | some next =>
      exact ih (fun state b hb ↦ hstep state b (mem_cons_of_mem a hb))
        (hstep state a mem_cons_self next hstate hnext)

/-! ### Reading encodings back -/

section Encodings

variable {item : List UInt8 → Option (α × List UInt8)} {put : α → List UInt8} {items : List α}

lemma mul_le_length_flatMap {width : ℕ} (hput : ∀ a ∈ items, width ≤ (put a).length) :
    items.length * width ≤ (items.flatMap put).length := by
  have hsum := card_nsmul_le_sum (items.map fun a ↦ (put a).length) width (by simpa using hput)
  simpa using hsum

lemma length_flatMap_le_mul {width : ℕ} (hput : ∀ a ∈ items, (put a).length ≤ width) :
    (items.flatMap put).length ≤ items.length * width := by
  have hsum := sum_le_card_nsmul (items.map fun a ↦ (put a).length) width (by simpa using hput)
  simpa using hsum

lemma length_le_length_flatMap (hput : ∀ a ∈ items, 0 < (put a).length) :
    items.length ≤ (items.flatMap put).length := by
  have hle := mul_le_length_flatMap hput
  rwa [Nat.mul_one] at hle

lemma decodeAll_flatMap (hitem : ∀ a ∈ items, ∀ rest, item (put a ++ rest) = some (a, rest))
    (hput : ∀ a ∈ items, 0 < (put a).length) (hfuel : items.length ≤ fuel) :
    decodeAll item fuel (items.flatMap put) = some items := by
  induction items generalizing fuel with
  | nil => cases fuel <;> rfl
  | cons a items ih =>
    obtain ⟨fuel, rfl⟩ := Nat.exists_eq_add_one_of_ne_zero (Nat.ne_of_gt
      (Nat.lt_of_lt_of_le (Nat.zero_lt_succ _) hfuel))
    obtain ⟨byte, bytes, hbytes⟩ := exists_cons_of_length_pos (hput a mem_cons_self)
    have hfirst := hitem a mem_cons_self (items.flatMap put)
    have hrest := ih (forall_mem_cons.mp hitem).2
      (forall_mem_cons.mp hput).2 (Nat.le_of_succ_le_succ hfuel)
    rw [flatMap_cons]
    rw [hbytes, cons_append] at hfirst ⊢
    simp [decodeAll, hfirst, hrest]

lemma front_flatMap (hitem : ∀ a ∈ items, ∀ rest, item (put a ++ rest) = some (a, rest))
    (hnil : item [] = none) (hfuel : items.length ≤ fuel) :
    front item fuel (items.flatMap put) = items := by
  induction items generalizing fuel with
  | nil =>
    cases fuel with
    | zero => rfl
    | succ fuel => rw [flatMap_nil, front, hnil]
  | cons a items ih =>
    obtain ⟨fuel, rfl⟩ := Nat.exists_eq_add_one_of_ne_zero (Nat.ne_of_gt
      (Nat.lt_of_lt_of_le (Nat.zero_lt_succ _) hfuel))
    rw [flatMap_cons, front, hitem a mem_cons_self]
    exact congrArg (a :: ·) (ih (forall_mem_cons.mp hitem).2
      (Nat.le_of_succ_le_succ hfuel))

/-- The records whose encodings lie within the first bytes. -/
def within (put : α → List UInt8) : ℕ → List α → List α
  | _, [] => []
  | cut, a :: items =>
    if (put a).length ≤ cut then a :: within put (cut - (put a).length) items else []

lemma within_isPrefix (put : α → List UInt8) (cut : ℕ) (items : List α) :
    within put cut items <+: items := by
  induction items generalizing cut with
  | nil => exact nil_prefix
  | cons a items ih =>
    rw [within]
    split_ifs
    · exact cons_prefix_cons.mpr ⟨rfl, ih _⟩
    · exact nil_prefix

lemma within_append {first : List α} (hcut : (first.flatMap put).length ≤ cut) (items : List α) :
    within put cut (first ++ items) =
      first ++ within put (cut - (first.flatMap put).length) items := by
  induction first generalizing cut with
  | nil => rfl
  | cons a first ih =>
    rw [flatMap_cons, length_append] at hcut ⊢
    rw [cons_append, within, if_pos (Nat.le_of_add_right_le hcut), ih (Nat.le_sub_of_add_le' hcut),
      Nat.sub_sub]
    rfl

lemma length_within_le (hput : ∀ a ∈ items, 0 < (put a).length) (cut : ℕ) :
    (within put cut items).length ≤ ((items.flatMap put).take cut).length := by
  induction items generalizing cut with
  | nil => exact Nat.zero_le _
  | cons a items ih =>
    rw [within]
    split_ifs with hwhole
    · have hfirst := hput a mem_cons_self
      have hrest := ih (forall_mem_cons.mp hput).2 (cut - (put a).length)
      rw [flatMap_cons, take_append, take_of_length_le hwhole, length_append, length_cons]
      omega
    · exact Nat.zero_le _

section

variable (hitem : ∀ a ∈ items, ∀ rest, item (put a ++ rest) = some (a, rest))

include hitem

lemma front_take_flatMap
    (htorn : ∀ a ∈ items, ∀ cut < (put a).length, item ((put a).take cut) = none)
    (hnil : item [] = none) (hfuel : (within put cut items).length ≤ fuel) :
    front item fuel ((items.flatMap put).take cut) = within put cut items := by
  induction items generalizing fuel cut with
  | nil =>
    rw [flatMap_nil, take_nil]
    cases fuel with
    | zero => rfl
    | succ fuel => rw [front, hnil, within]
  | cons a items ih =>
    rw [within] at hfuel ⊢
    rw [flatMap_cons]
    split_ifs at hfuel ⊢ with hwhole
    · obtain ⟨fuel, rfl⟩ := Nat.exists_eq_add_one_of_ne_zero (Nat.ne_of_gt
        (Nat.lt_of_lt_of_le (Nat.zero_lt_succ _) hfuel))
      rw [front, take_append, take_of_length_le hwhole, hitem a mem_cons_self]
      exact congrArg (a :: ·) (ih (forall_mem_cons.mp hitem).2
        (forall_mem_cons.mp htorn).2 (Nat.le_of_succ_le_succ hfuel))
    · have hcut := Nat.not_le.mp hwhole
      cases fuel with
      | zero => rfl
      | succ fuel =>
        rw [front, take_append_of_le_length hcut.le, htorn a mem_cons_self cut hcut]

lemma scan_take_flatMap
    (htorn : ∀ a ∈ items, ∀ cut < (put a).length, item ((put a).take cut) = none)
    (hnil : item [] = none) (hfuel : (within put cut items).length ≤ fuel) (state : σ) :
    scan item step fuel ((items.flatMap put).take cut) state =
      steps step (within put cut items) state := by
  rw [scan_eq_steps, front_take_flatMap hitem htorn hnil hfuel]

lemma scan_flatMap (hnil : item [] = none) (hfuel : items.length ≤ fuel) (state : σ) :
    scan item step fuel (items.flatMap put) state = steps step items state := by
  rw [scan_eq_steps, front_flatMap hitem hnil hfuel]

end

end Encodings

lemma scan_keeps {item : List UInt8 → Option (α × List UInt8)}
    (hstep : ∀ state a next, invariant state → step state a = some next → invariant next)
    (fuel : ℕ) (bytes : List UInt8) {state : σ} (hstate : invariant state) :
    invariant (scan item step fuel bytes state) := by
  rw [scan_eq_steps]
  exact steps_keeps invariant (fun state a _ next ↦ hstep state a next) hstate

end Lockstep.Library.RecordStream
