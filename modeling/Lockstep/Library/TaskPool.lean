import Mathlib.Data.List.Basic

/-!
# Tasks that take turns

Tasks with fixed arguments share a state. A turn of one of them changes the state and where that
task stands, and the others stay where they are.

An invariant of such a pool says something about the state, something about every task, and
something about every two of them (`Holds`). A turn keeps it when it keeps what the other tasks rely
on (`Holds.turn`), and so does a new task (`Holds.spawn`).
-/

namespace Lockstep.Library

open List

/-- A shared state and the tasks that work on it, each with its arguments and where it stands. -/
structure TaskPool (σ ι τ : Type*) where
  state : σ
  tasks : List (ι × τ) := []

namespace TaskPool

variable {σ ι τ : Type*}

/-- The arguments of the tasks, in the order they were spawned. -/
def arguments (pool : TaskPool σ ι τ) : List ι := pool.tasks.map Prod.fst

/-- One turn of a task. Nothing happens when there is no such task. -/
def turn (act : σ → ι → τ → σ × τ) (pool : TaskPool σ ι τ) (i : ℕ) : TaskPool σ ι τ :=
  match pool.tasks[i]? with
  | none => pool
  | some (arg, place) =>
    { state := (act pool.state arg place).1
      tasks := pool.tasks.set i (arg, (act pool.state arg place).2) }

/-- A new task, for which the state may change too. -/
def spawn (pool : TaskPool σ ι τ) (state : σ) (arg : ι) (place : τ) : TaskPool σ ι τ where
  state := state
  tasks := pool.tasks ++ [(arg, place)]

variable {act : σ → ι → τ → σ × τ} {pool : TaskPool σ ι τ} {i : ℕ}

lemma turn_of_none (h : pool.tasks[i]? = none) : pool.turn act i = pool := by
  rw [turn, h]

variable {arg : ι}

lemma turn_of_some {place : τ} (h : pool.tasks[i]? = some (arg, place)) : pool.turn act i =
      { state := (act pool.state arg place).1
        tasks := pool.tasks.set i (arg, (act pool.state arg place).2) } := by
  rw [turn, h]

lemma tasks_turn_self {place : τ} (h : pool.tasks[i]? = some (arg, place)) :
    (pool.turn act i).tasks[i]? = some (arg, (act pool.state arg place).2) := by
  rw [turn_of_some h, List.getElem?_set_self (List.getElem?_eq_some_iff.mp h).1]

lemma tasks_turn_of_ne {j : ℕ} (hne : j ≠ i) :
    (pool.turn act i).tasks[j]? = pool.tasks[j]? := by
  cases h : pool.tasks[i]? with
  | none => rw [turn_of_none h]
  | some task => rw [turn_of_some h, getElem?_set_ne (Ne.symm hne)]

@[simp]
lemma arguments_turn (act : σ → ι → τ → σ × τ) (pool : TaskPool σ ι τ) (i : ℕ) :
    (pool.turn act i).arguments = pool.arguments := by
  cases h : pool.tasks[i]? with
  | none => rw [turn_of_none h]
  | some task =>
    obtain ⟨hi, htask⟩ := List.getElem?_eq_some_iff.mp h
    rw [turn_of_some h, arguments, List.map_set, arguments]
    refine (congrArg _ ?_).trans (set_getElem_self (by rwa [length_map]))
    rw [getElem_map, htask]

@[simp]
lemma arguments_spawn (pool : TaskPool σ ι τ) (state : σ) (arg : ι) (place : τ) :
    (pool.spawn state arg place).arguments = pool.arguments ++ [arg] :=
  map_append

/-- A statement about the state and all arguments, one about every task, and one about every two
tasks. -/
structure Holds (shared : σ → List ι → Prop) (each : σ → List ι → ι → τ → Prop)
    (apart : τ → τ → Prop) (pool : TaskPool σ ι τ) : Prop where
  shared : shared pool.state pool.arguments
  each : ∀ (i : ℕ) arg place, pool.tasks[i]? = some (arg, place) →
    each pool.state pool.arguments arg place
  apart : ∀ (i j : ℕ) arg place arg' place', i ≠ j → pool.tasks[i]? = some (arg, place) →
    pool.tasks[j]? = some (arg', place') → apart place place'

variable {shared : σ → List ι → Prop} {each : σ → List ι → ι → τ → Prop} {apart : τ → τ → Prop}

/-- A turn keeps the invariant when it keeps the statement about the state, leads its own task to
where the invariant holds, and leaves the other tasks what they rely on. -/
theorem Holds.turn (h : pool.Holds shared each apart)
    (hturn : ∀ arg place, pool.tasks[i]? = some (arg, place) →
      shared (act pool.state arg place).1 pool.arguments ∧
      each (act pool.state arg place).1 pool.arguments arg (act pool.state arg place).2 ∧
      ∀ (j : ℕ) arg' place', j ≠ i → pool.tasks[j]? = some (arg', place') →
        each (act pool.state arg place).1 pool.arguments arg' place' ∧
        apart (act pool.state arg place).2 place' ∧ apart place' (act pool.state arg place).2) :
    (pool.turn act i).Holds shared each apart := by
  cases htask : pool.tasks[i]? with
  | none => rwa [turn_of_none htask]
  | some task =>
    obtain ⟨hshared, hown, hothers⟩ := hturn task.1 task.2 htask
    have hself := @tasks_turn_self _ _ _ act pool i task.1 task.2 htask
    have hstate : (pool.turn act i).state = (act pool.state task.1 task.2).1 := by
      rw [turn_of_some htask]
    refine ⟨by rwa [hstate, arguments_turn], fun j arg place hj ↦ ?_,
      fun j k arg place arg' place' hne hj hk ↦ ?_⟩
    · rw [hstate, arguments_turn]
      by_cases hji : j = i
      · subst hji
        cases hself.symm.trans hj
        exact hown
      · exact (hothers j arg place hji (tasks_turn_of_ne hji ▸ hj)).1
    · by_cases hji : j = i
      · subst hji
        cases hself.symm.trans hj
        exact (hothers k arg' place' hne.symm (tasks_turn_of_ne hne.symm ▸ hk)).2.1
      have hold := tasks_turn_of_ne hji ▸ hj
      by_cases hki : k = i
      · subst hki
        cases hself.symm.trans hk
        exact (hothers j arg place hji hold).2.2
      · exact h.apart j k arg place arg' place' hne hold (tasks_turn_of_ne hki ▸ hk)

/-- A new task keeps the invariant when it holds where the task starts and the other tasks are left
what they rely on. -/
theorem Holds.spawn (h : pool.Holds shared each apart) {state : σ} {place : τ}
    (hshared : shared state (pool.arguments ++ [arg]))
    (hown : each state (pool.arguments ++ [arg]) arg place)
    (hothers : ∀ (j : ℕ) arg' place', pool.tasks[j]? = some (arg', place') →
      each state (pool.arguments ++ [arg]) arg' place' ∧ apart place place' ∧ apart place' place) :
    (pool.spawn state arg place).Holds shared each apart := by
  have hcases : ∀ {j : ℕ} {arg' : ι} {place' : τ},
      (pool.spawn state arg place).tasks[j]? = some (arg', place') →
      pool.tasks[j]? = some (arg', place') ∨
        j = pool.tasks.length ∧ arg' = arg ∧ place' = place := by
    intro j arg' place' hj
    rcases Nat.lt_trichotomy j pool.tasks.length with hlt | heq | hgt
    · exact .inl ((getElem?_append_left hlt).symm.trans hj)
    · subst heq
      rw [TaskPool.spawn, getElem?_concat_length] at hj
      cases hj
      exact .inr ⟨rfl, rfl, rfl⟩
    · have hlength : (pool.spawn state arg place).tasks.length = pool.tasks.length + 1 :=
        length_append
      rw [getElem?_eq_none (hlength ▸ hgt)] at hj
      cases hj
  refine ⟨by rw [arguments_spawn]; exact hshared, fun j arg' place' hj ↦ ?_,
    fun j k arg₁ place₁ arg₂ place₂ hne hj hk ↦ ?_⟩
  · rw [arguments_spawn]
    rcases hcases hj with hold | ⟨-, rfl, rfl⟩
    · exact (hothers j arg' place' hold).1
    · exact hown
  · rcases hcases hj with hold | ⟨rfl, rfl, rfl⟩
    · rcases hcases hk with hold' | ⟨-, rfl, rfl⟩
      · exact h.apart j k arg₁ place₁ arg₂ place₂ hne hold hold'
      · exact (hothers j arg₁ place₁ hold).2.2
    · rcases hcases hk with hold' | ⟨rfl, -, -⟩
      · exact (hothers k arg₂ place₂ hold').2.1
      · exact absurd rfl hne

end TaskPool

end Lockstep.Library
