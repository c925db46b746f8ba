import Mathlib

/-!
# Work queues

A loop takes the first item of a queue, acts on a state and may put further items at the back.
`drain` runs it for a number of rounds. When every item weighs more than what it puts back, as many
rounds as the queue weighs empty it (`drain_done`).

`Along` says that every item satisfies a condition in the state it is taken in.
-/

namespace Lockstep.Library.WorkQueue

open List

variable {σ τ ι : Type*} (step : σ → ι → σ × List ι)

/-- Runs the loop for a number of rounds, to the state and what is left of the queue. -/
def drain : ℕ → σ → List ι → σ × List ι
  | 0, state, queue => (state, queue)
  | _ + 1, state, [] => (state, [])
  | rounds + 1, state, item :: queue =>
    drain rounds (step state item).1 (queue ++ (step state item).2)

/-- Every item that is taken satisfies a condition in the state before it. -/
def Along (condition : σ → ι → Prop) : ℕ → σ → List ι → Prop
  | 0, _, _ | _ + 1, _, [] => True
  | rounds + 1, state, item :: queue =>
    condition state item ∧ Along condition rounds (step state item).1 (queue ++ (step state item).2)

/-- Whether a loop meets a decidable condition can be computed. -/
instance decidableAlong (condition : σ → ι → Prop)
    [∀ state item, Decidable (condition state item)] :
    ∀ (rounds : ℕ) (state : σ) (queue : List ι),
      Decidable (Along step condition rounds state queue)
  | 0, _, _ | _ + 1, _, [] => isTrue trivial
  | rounds + 1, state, item :: queue =>
    have := decidableAlong condition rounds (step state item).1 (queue ++ (step state item).2)
    inferInstanceAs (Decidable (_ ∧ _))

variable {step} {queue : List ι}

lemma drain_done (weight : ι → ℕ)
    (hstep : ∀ state item, ((step state item).2.map weight).sum < weight item) {rounds : ℕ}
    (h : (queue.map weight).sum ≤ rounds) (state : σ) :
    (drain step rounds state queue).2 = [] := by
  induction rounds generalizing state queue with
  | zero =>
    cases queue with
    | nil => rfl
    | cons item queue =>
      have hpos := (Nat.zero_le _).trans_lt (hstep state item)
      rw [map_cons, sum_cons] at h
      omega
  | succ rounds ih =>
    cases queue with
    | nil => rfl
    | cons item queue =>
      refine ih ?_ _
      have hless := hstep state item
      rw [map_cons, sum_cons] at h
      rw [map_append, sum_append]
      omega

variable (invariant : σ → List ι → Prop)

lemma drain_invariant (hstep : ∀ state item queue, invariant state (item :: queue) →
      invariant (step state item).1 (queue ++ (step state item).2))
    {state : σ} (h : invariant state queue) (rounds : ℕ) :
    invariant (drain step rounds state queue).1 (drain step rounds state queue).2 := by
  induction rounds generalizing state queue with
  | zero => exact h
  | succ rounds ih =>
    cases queue with
    | nil => exact h
    | cons item queue => exact ih (hstep state item queue h)

/-- What a round makes hold exactly if it held before and its item met a condition holds at the end
exactly if it held at first and every item met the condition. -/
theorem drain_iff_along (good : σ → Prop) (condition : σ → ι → Prop)
    (hstep : ∀ state item queue, invariant state (item :: queue) →
      invariant (step state item).1 (queue ++ (step state item).2) ∧
        (good (step state item).1 ↔ good state ∧ condition state item))
    {state : σ} (h : invariant state queue) (rounds : ℕ) : good (drain step rounds state queue).1 ↔
      good state ∧ Along step condition rounds state queue := by
  induction rounds generalizing state queue with
  | zero => exact (and_iff_left trivial).symm
  | succ rounds ih =>
    cases queue with
    | nil => exact (and_iff_left trivial).symm
    | cons item queue =>
      obtain ⟨hnext, hgood⟩ := hstep state item queue h
      rw [drain, ih hnext, hgood, and_assoc]
      rfl

lemma drain_related {other : τ → ι → τ × List ι} (related : σ → τ → Prop) (kind : ι → Prop)
    (hstep : ∀ s t item, related s t → kind item →
      related (step s item).1 (other t item).1 ∧ (step s item).2 = (other t item).2 ∧
        ∀ next ∈ (step s item).2, kind next)
    {s : σ} {t : τ} (h : related s t) (hqueue : ∀ item ∈ queue, kind item)
    (rounds : ℕ) : related (drain step rounds s queue).1 (drain other rounds t queue).1 := by
  induction rounds generalizing s t queue with
  | zero => exact h
  | succ rounds ih =>
    cases queue with
    | nil => exact h
    | cons item queue =>
      obtain ⟨hnext, hsame, hback⟩ := hstep s t item h (hqueue item mem_cons_self)
      rw [drain, drain, ← hsame]
      exact ih hnext (forall_mem_append.mpr ⟨(forall_mem_cons.mp hqueue).2, hback⟩)

end Lockstep.Library.WorkQueue
