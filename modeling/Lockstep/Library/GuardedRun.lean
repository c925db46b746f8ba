import Mathlib.Data.List.Basic
import Mathlib.Tactic.Common

/-!
# Runs under a condition on each step

A system is a function from a state and an input to the next state, and a run folds it over a list
of inputs. `Meets` says that every input of a run satisfies a condition in the state it arrives in.
`Meets.induction` is the invariant rule: what holds at first and is kept by every step that meets
the condition holds after every run whose steps meet it.
-/

namespace Lockstep.Library.GuardedRun

variable {σ α : Type*} (step : σ → α → σ)

def run (state : σ) (inputs : List α) : σ := inputs.foldl step state

/-- Every input of a run satisfies a condition in the state before it. -/
def Meets (condition : σ → α → Prop) : σ → List α → Prop
  | _, [] => True
  | state, input :: inputs => condition state input ∧ Meets condition (step state input) inputs

/-- Whether a run meets a decidable condition can be computed. -/
instance decidableMeets (condition : σ → α → Prop)
    [∀ state input, Decidable (condition state input)] :
    ∀ (state : σ) (inputs : List α), Decidable (Meets step condition state inputs)
  | _, [] => isTrue trivial
  | state, input :: inputs =>
    have := decidableMeets condition (step state input) inputs
    inferInstanceAs (Decidable (_ ∧ _))

variable {step} {condition : σ → α → Prop} {state : σ}

lemma run_append (state : σ) (first second : List α) :
    run step state (first ++ second) = run step (run step state first) second :=
  List.foldl_append

variable {inputs : List α}

lemma run_take_succ (state : σ) {k : ℕ} (hk : k < inputs.length) :
    run step state (inputs.take (k + 1)) = step (run step state (inputs.take k)) inputs[k] := by
  rw [List.take_succ_eq_append_getElem hk, run_append]
  rfl

variable (invariant : σ → Prop)

lemma run_keeps (hstep : ∀ state input, invariant state → invariant (step state input))
    (hstate : invariant state) (inputs : List α) : invariant (run step state inputs) := by
  induction inputs generalizing state with
  | nil => exact hstate
  | cons input inputs ih => exact ih (hstep state input hstate)

namespace Meets

lemma of_append {first second : List α} (h : Meets step condition state (first ++ second)) :
    Meets step condition state first ∧ Meets step condition (run step state first) second := by
  induction first generalizing state with
  | nil => exact ⟨trivial, h⟩
  | cons input first ih =>
    obtain ⟨hfirst, hsecond⟩ := ih h.2
    exact ⟨⟨h.1, hfirst⟩, hsecond⟩

lemma imp {weaker : σ → α → Prop} (himp : ∀ state input, condition state input →
    weaker state input) (h : Meets step condition state inputs) :
    Meets step weaker state inputs := by
  induction inputs generalizing state with
  | nil => trivial
  | cons input inputs ih => exact ⟨himp state input h.1, ih h.2⟩

lemma of_forall
    (h : ∀ k (hk : k < inputs.length), condition (run step state (inputs.take k)) inputs[k]) :
    Meets step condition state inputs := by
  induction inputs generalizing state with
  | nil => trivial
  | cons input inputs ih =>
    refine ⟨h 0 (Nat.zero_lt_succ _), ih fun k hk ↦ ?_⟩
    exact h (k + 1) (Nat.succ_lt_succ hk)

lemma between (h : Meets step condition state inputs) {p q : ℕ} (hpq : p ≤ q) :
    Meets step condition state (inputs.take p) ∧
      ∃ later, Meets step condition (run step state (inputs.take p)) later ∧
        run step state (inputs.take q) = run step (run step state (inputs.take p)) later := by
  have hsplit := List.take_append_drop p (inputs.take q)
  rw [List.take_take, Nat.min_eq_left hpq] at hsplit
  have htake : Meets step condition state (inputs.take q) := by
    rw [← List.take_append_drop q inputs] at h
    exact h.of_append.1
  rw [← hsplit] at htake
  refine ⟨htake.of_append.1, _, htake.of_append.2, ?_⟩
  rw [← run_append, hsplit]

lemma induction (hstep : ∀ state input, invariant state → condition state input →
      invariant (step state input))
    (hstate : invariant state) (h : Meets step condition state inputs) :
    invariant (run step state inputs) := by
  induction inputs generalizing state with
  | nil => exact hstate
  | cons input inputs ih => exact ih (hstep state input hstate h.1) h.2

end Meets

end Lockstep.Library.GuardedRun
