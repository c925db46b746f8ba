import Mathlib.Algebra.Order.Ring.Nat
import Mathlib.Data.List.Basic
import Mathlib.Tactic.Common

/-!
# Readers of a stream that comes in chunks

A reader keeps what it has not consumed yet in a buffer. A turn looks at the buffer and either waits
for more, or changes the state, says how much of the buffer it has consumed and whether the loop of
turns ends here. A chunk is appended to the buffer, and turns are taken until one waits or ends the
loop (`feed`).

A turn is stable when it does the same with more of the stream behind the buffer. Then the chunks do
not matter: the state after all of them is the one after the whole stream at once
(`feedAll_eq_feed`).
-/

namespace Lockstep.Library.ChunkedReader

open List

variable {σ α : Type*}

/-- What a turn did. -/
structure Turn (σ : Type*) where
  state : σ
  consumed : ℕ
  halts : Bool

/-- A reader: its turns, and whether a state is one that nobody feeds any more. A turn that does not
end the loop consumes something. -/
structure Reader (σ α : Type*) where
  turn : σ → List α → Option (Turn σ)
  closed : σ → Bool
  consumes : ∀ s buf t, turn s buf = some t → t.halts = false →
    0 < t.consumed ∧ t.consumed ≤ buf.length

/-- Takes turns until one waits or ends the loop. -/
def drain (R : Reader σ α) : ℕ → σ → List α → σ × List α
  | 0, s, buf => (s, buf)
  | fuel + 1, s, buf =>
    match R.turn s buf with
    | none => (s, buf)
    | some t =>
      if t.halts then (t.state, buf.drop t.consumed) else drain R fuel t.state (buf.drop t.consumed)

/-- A chunk is put behind the buffer, and turns are taken. -/
def feed (R : Reader σ α) (x : σ × List α) (chunk : List α) : σ × List α :=
  drain R ((x.2 ++ chunk).length + 1) x.1 (x.2 ++ chunk)

/-- Chunks are fed until the state is closed. -/
def feedAll (R : Reader σ α) (x : σ × List α) (chunks : List (List α)) : σ × List α :=
  chunks.foldl (fun x chunk ↦ if R.closed x.1 then x else feed R x chunk) x

/-- A condition holds at every turn. -/
def VisitsFor (R : Reader σ α) (P : σ → List α → Prop) : ℕ → σ → List α → Prop
  | 0, _, _ => True
  | fuel + 1, s, buf =>
    P s buf ∧
      match R.turn s buf with
      | none => True
      | some t => t.halts = true ∨ VisitsFor R P fuel t.state (buf.drop t.consumed)

/-- A condition holds at every turn over a stream. -/
def Visits (R : Reader σ α) (P : σ → List α → Prop) (s : σ) (buf : List α) : Prop :=
  VisitsFor R P (buf.length + 1) s buf

/-- Whether a decidable condition holds at every turn can be computed. -/
instance decidableVisitsFor (R : Reader σ α) (P : σ → List α → Prop)
    [∀ s buf, Decidable (P s buf)] :
    ∀ (fuel : ℕ) (s : σ) (buf : List α), Decidable (VisitsFor R P fuel s buf)
  | 0, _, _ => isTrue trivial
  | fuel + 1, s, buf => by
    unfold VisitsFor
    cases R.turn s buf with
    | none => exact inferInstanceAs (Decidable (_ ∧ True))
    | some t =>
      have := decidableVisitsFor R P fuel t.state (buf.drop t.consumed)
      exact inferInstanceAs (Decidable (_ ∧ (_ ∨ _)))

instance decidableVisits (R : Reader σ α) (P : σ → List α → Prop)
    [∀ s buf, Decidable (P s buf)] (s : σ) (buf : List α) : Decidable (Visits R P s buf) :=
  decidableVisitsFor R P _ s buf

variable {R R' : Reader σ α} {P : σ → List α → Prop} {s : σ} {buf : List α} {t : Turn σ}

lemma Reader.length_drop_lt (hturn : R.turn s buf = some t) (hhalts : ¬t.halts = true) :
    (buf.drop t.consumed).length < buf.length := by
  obtain ⟨hpos, hle⟩ := R.consumes s buf t hturn (by simpa using hhalts)
  rw [length_drop]
  omega

variable {fuel : ℕ}

lemma drain_succ (h : buf.length < fuel) : drain R (fuel + 1) s buf = drain R fuel s buf := by
  induction fuel generalizing s buf with
  | zero => exact absurd h (Nat.not_lt_zero _)
  | succ fuel ih =>
    rw [drain, drain]
    cases hturn : R.turn s buf with
    | none => rfl
    | some t =>
      dsimp only
      split_ifs with hhalts
      · rfl
      · exact ih ((R.length_drop_lt hturn hhalts).trans_le (Nat.le_of_lt_succ h))

lemma drain_eq (h : buf.length < fuel) : drain R fuel s buf = drain R (buf.length + 1) s buf := by
  induction fuel, h using Nat.le_induction with
  | base => rfl
  | succ fuel h ih => rw [drain_succ h, ih]

lemma drain_unfold (R : Reader σ α) (s : σ) (buf : List α) :
    drain R (buf.length + 1) s buf =
      match R.turn s buf with
      | none => (s, buf)
      | some t =>
        if t.halts then (t.state, buf.drop t.consumed)
        else drain R ((buf.drop t.consumed).length + 1) t.state (buf.drop t.consumed) := by
  rw [drain]
  cases hturn : R.turn s buf with
  | none => rfl
  | some t =>
    dsimp only
    split_ifs with hhalts
    · rfl
    · exact drain_eq (R.length_drop_lt hturn hhalts)

lemma visitsFor_succ (h : buf.length < fuel) :
    VisitsFor R P (fuel + 1) s buf ↔ VisitsFor R P fuel s buf := by
  induction fuel generalizing s buf with
  | zero => exact absurd h (Nat.not_lt_zero _)
  | succ fuel ih =>
    rw [VisitsFor, VisitsFor]
    cases hturn : R.turn s buf with
    | none => exact Iff.rfl
    | some t =>
      dsimp only
      by_cases hhalts : t.halts = true
      · simp [hhalts]
      · rw [ih ((R.length_drop_lt hturn hhalts).trans_le (Nat.le_of_lt_succ h))]

lemma visitsFor_iff (h : buf.length < fuel) : VisitsFor R P fuel s buf ↔ Visits R P s buf := by
  induction fuel, h using Nat.le_induction with
  | base => exact Iff.rfl
  | succ fuel h ih => rw [visitsFor_succ h, ih]

namespace Visits

lemma here (h : Visits R P s buf) : P s buf := h.1

lemma next (h : Visits R P s buf) (hturn : R.turn s buf = some t) (hhalts : ¬t.halts = true) :
    Visits R P t.state (buf.drop t.consumed) := by
  have hrest := h.2
  rw [hturn] at hrest
  exact (visitsFor_iff (R.length_drop_lt hturn hhalts)).mp (hrest.resolve_left hhalts)

end Visits

/-! ### Chunks do not matter -/

/-- What a reader does on a part of a stream, another one does on the whole, under a condition. A
turn that ends the loop closes the state, and no other turn does. -/
structure Stable (R R' : Reader σ α) (P : σ → List α → Prop) : Prop where
  turn : ∀ {s first more t}, P s (first ++ more) → R.turn s first = some t →
    R'.turn s (first ++ more) = some t
  waits : ∀ {s buf}, P s buf → R.turn s buf = none → R'.turn s buf = none
  halts : ∀ {s buf t}, R.closed s = false → R.turn s buf = some t → R.closed t.state = t.halts

variable (hstable : Stable R R' P)

include hstable

lemma drain_append (hfuel : buf.length < fuel) (hopen : R.closed s = false)
    (more : List α) (hvisits : Visits R' P s (buf ++ more)) :
    ∃ s' rest, drain R fuel s buf = (s', rest) ∧
      (R.closed s' = true →
        (drain R' ((buf ++ more).length + 1) s (buf ++ more)).1 = s') ∧
      (R.closed s' = false → R.turn s' rest = none ∧ Visits R' P s' (rest ++ more) ∧
        drain R' ((buf ++ more).length + 1) s (buf ++ more) =
          drain R' ((rest ++ more).length + 1) s' (rest ++ more)) := by
  induction fuel generalizing s buf with
  | zero => exact absurd hfuel (Nat.not_lt_zero _)
  | succ fuel ih =>
    rw [drain]
    cases hturn : R.turn s buf with
    | none =>
      refine ⟨s, buf, rfl, fun hclosed ↦ ?_, fun _ ↦ ⟨hturn, hvisits, rfl⟩⟩
      exact absurd (hclosed.symm.trans hopen) (by decide)
    | some t =>
      have hwhole := hstable.turn hvisits.here hturn
      have hclosed := hstable.halts hopen hturn
      rw [drain_unfold R', hwhole]
      dsimp only
      by_cases hhalts : t.halts = true
      · rw [if_pos hhalts, if_pos hhalts]
        refine ⟨_, _, rfl, fun _ ↦ rfl, fun hout ↦ ?_⟩
        exact absurd ((hclosed.trans hhalts).symm.trans hout) (by decide)
      rw [if_neg hhalts, if_neg hhalts]
      have hle := (R.consumes s buf t hturn (by simpa using hhalts)).2
      have hdrop : (buf ++ more).drop t.consumed = buf.drop t.consumed ++ more :=
        drop_append_of_le_length hle
      have hnext := hvisits.next hwhole hhalts
      rw [hdrop] at hnext ⊢
      refine ih ?_ (hclosed.trans (by simpa using hhalts)) hnext
      exact (R.length_drop_lt hturn hhalts).trans_le (Nat.le_of_lt_succ hfuel)

lemma feedAll_eq_feed {chunks : List (List α)} (hopen : R.closed s = false)
    (hwaits : R.turn s buf = none) (hvisits : Visits R' P s (buf ++ chunks.flatten)) :
    (feedAll R (s, buf) chunks).1 = (feed R' (s, buf) chunks.flatten).1 := by
  induction chunks generalizing s buf with
  | nil =>
    rw [flatten_nil, append_nil] at hvisits
    rw [feed, flatten_nil, append_nil, drain_unfold R', hstable.waits hvisits.here hwaits]
    rfl
  | cons chunk chunks ih =>
    rw [flatten_cons, ← append_assoc] at hvisits
    obtain ⟨s', rest, hdrain, hdone, hgoes⟩ :=
      drain_append hstable (Nat.lt_succ_self _) hopen chunks.flatten hvisits
    have hfeed : feed R (s, buf) chunk = (s', rest) := hdrain
    rw [feedAll, foldl_cons, if_neg (by simp [hopen]), hfeed, feed, flatten_cons, ← append_assoc]
    cases hclosed : R.closed s' with
    | true =>
      have hskip : ∀ chunks : List (List α), feedAll R (s', rest) chunks = (s', rest) := by
        intro chunks
        induction chunks with
        | nil => rfl
        | cons chunk chunks ih =>
          rw [feedAll, foldl_cons, if_pos hclosed]
          exact ih
      rw [hdone hclosed]
      exact congrArg Prod.fst (hskip chunks)
    | false =>
      obtain ⟨hturn, hrest, heq⟩ := hgoes hclosed
      rw [heq]
      exact ih hclosed hturn hrest

end Lockstep.Library.ChunkedReader
