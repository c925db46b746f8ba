import Lockstep.Library.TermLog

/-!
# The invariant of the replicated-log machine

`Inv` is preserved by every step of `TermLog.Step`. Its fields `retains`, `carries` and `elected`
carry the argument.
-/

namespace Lockstep.Library.TermLog

open List

variable {N V : Type*} {s s' : State N V}

/-! ### Logs made of leaders' entries -/

/-- Every entry of the log was created by the leader of its term, the log up to it is that
leader's, and terms never decrease along the log. -/
structure Coherent (s : State N V) (log : List (Entry V)) : Prop where
  leader : ∀ entry ∈ log, s.leader entry.term ≠ none
  matching : ∀ i entry, log[i]? = some entry → log.take (i + 1) <+: s.history entry.term
  sorted : log.Pairwise fun first second ↦ first.term ≤ second.term

lemma Coherent.nil (s : State N V) : Coherent s [] where
  leader := by simp
  matching := by simp
  sorted := List.Pairwise.nil

variable {first second : List (Entry V)}

lemma Coherent.mono (h : Coherent s second) (hpre : first <+: second) : Coherent s first where
  leader := fun entry hentry ↦ h.leader entry (hpre.subset hentry)
  matching := by
    intro i entry hentry
    have hi : i < first.length := (List.getElem?_eq_some_iff.mp hentry).1
    rw [← prefix_take_eq hpre (Nat.succ_le_of_lt hi)]
    exact h.matching i entry (prefix_getElem? hpre hentry)
  sorted := h.sorted.sublist hpre.sublist

variable {log : List (Entry V)}

lemma Coherent.extends (h : Coherent s log) (hext : Extends s s') : Coherent s' log where
  leader := fun entry hentry ↦ hext.leader_ne_none (h.leader entry hentry)
  matching := fun i entry hentry ↦ (h.matching i entry hentry).trans (hext.history entry.term)
  sorted := h.sorted

lemma Coherent.take_eq (hfirst : Coherent s first)
    (hsecond : Coherent s second) {i : ℕ} {a b : Entry V} (ha : first[i]? = some a)
    (hb : second[i]? = some b) (hterm : a.term = b.term) :
    first.take (i + 1) = second.take (i + 1) := by
  have h₁ := hfirst.matching i a ha
  have h₂ := hsecond.matching i b hb
  rw [hterm] at h₁
  have hi₁ : i < first.length := (List.getElem?_eq_some_iff.mp ha).1
  have hi₂ : i < second.length := (List.getElem?_eq_some_iff.mp hb).1
  have hlen : (first.take (i + 1)).length = (second.take (i + 1)).length := by
    rw [length_take_of_le hi₁, length_take_of_le hi₂]
  exact (prefix_of_prefix_length_le h₁ h₂ hlen.le).eq_of_length hlen

lemma Coherent.prefix_lastTerm (h : Coherent s log) (hne : log ≠ []) :
    log <+: s.history (lastTerm log) := by
  have hpos : 0 < log.length := length_pos_iff.mpr hne
  obtain ⟨entry, hentry⟩ : ∃ entry, log[log.length - 1]? = some entry :=
    ⟨_, getElem?_eq_getElem (by omega)⟩
  rw [lastTerm_eq_of_getElem? hentry]
  have hmatch := h.matching _ entry hentry
  rwa [Nat.sub_add_cancel hpos, take_length] at hmatch

lemma Coherent.term_le_lastTerm (h : Coherent s log) {entry : Entry V}
    (hentry : entry ∈ log) : entry.term ≤ lastTerm log := by
  obtain ⟨i, hi, rfl⟩ := mem_iff_getElem.mp hentry
  have hlast : log.length - 1 < log.length := by omega
  rw [lastTerm_eq_of_getElem? (getElem?_eq_getElem hlast)]
  rcases Nat.lt_or_ge i (log.length - 1) with hlt | hge
  · exact pairwise_iff_getElem.mp h.sorted i (log.length - 1) hi (by omega) hlt
  · have heq : i = log.length - 1 := by omega
    subst heq
    exact le_rfl

/-- The log starts with the history of term `t` up to and including position `i`. -/
def Holds (s : State N V) (t i : ℕ) (log : List (Entry V)) : Prop :=
  (s.history t).take (i + 1) <+: log

/-- The leader of term `u` was elected without the history of term `t` up to position `i`. -/
def Overruled (s : State N V) (t i u : ℕ) : Prop :=
  s.leader u ≠ none ∧ ¬ Holds s t i (s.base u)

/-- What the node has acknowledged is still in its log, or a later leader was elected without
it. -/
def RetainsAcked (s : State N V) (v : N) : Prop :=
  ∀ t i, i < s.acked v t → OwnAt s t i →
    Holds s t i (s.log v) ∨ ∃ u, t < u ∧ u ≤ s.term v ∧ Overruled s t i u

/-- What the node acknowledged before term `limit` is in the given log, or a leader of a term
below `limit` was elected without it. -/
def Carries (s : State N V) (limit : ℕ) (v : N) (log : List (Entry V)) : Prop :=
  ∀ t i, t < limit → i < s.acked v t → OwnAt s t i →
    Holds s t i log ∨ ∃ u, t < u ∧ u < limit ∧ Overruled s t i u

section Stable

variable (hext : Extends s s') {t i : ℕ} (hi : i < (s.history t).length)
include hext hi

lemma ownAt_of_extends (h : OwnAt s' t i) : OwnAt s t i := by
  obtain ⟨entry, hentry, hterm⟩ := h
  exact ⟨entry, getElem?_prefix_of_lt (hext.history t) hi hentry, hterm⟩

lemma Holds.extends (h : Holds s t i log) : Holds s' t i log := by
  rw [Holds, hext.history_take (Nat.succ_le_of_lt hi)]
  exact h

lemma Overruled.extends {u : ℕ} (h : Overruled s t i u) : Overruled s' t i u := by
  obtain ⟨c, hc⟩ := Option.ne_none_iff_exists'.mp h.1
  refine ⟨hext.leader_ne_none h.1, fun hholds ↦ h.2 ?_⟩
  rw [Holds, hext.history_take (Nat.succ_le_of_lt hi), hext.base u c hc] at hholds
  exact hholds

end Stable

lemma OwnAt.extends {t i : ℕ} (hext : Extends s s') (h : OwnAt s t i) : OwnAt s' t i := by
  obtain ⟨entry, hentry, hterm⟩ := h
  exact ⟨entry, prefix_getElem? (hext.history t) hentry, hterm⟩

/-- The invariant of the machine. -/
structure Inv (s : State N V) : Prop where
  vote_le : ∀ v t c, s.vote v t = some c → t ≤ s.term v
  vote_stood : ∀ v t c, s.vote v t = some c → ∃ log, s.stood c t = some log
  stood_vote : ∀ c t log, s.stood c t = some log → s.vote c t = some c
  leader_stood : ∀ t c, s.leader t = some c → s.stood c t = some (s.base t)
  leader_log : ∀ c, s.leader (s.term c) = some c → s.log c = s.history (s.term c)
  history_nil : ∀ t, s.leader t = none → s.history t = []
  base_history : ∀ t, s.leader t ≠ none → s.base t <+: s.history t
  base_term : ∀ t, s.leader t ≠ none → ∀ entry ∈ s.base t, entry.term < t
  own_term : ∀ t i entry, (s.history t)[i]? = some entry → (s.base t).length ≤ i → entry.term = t
  log_term : ∀ n, ∀ entry ∈ s.log n, entry.term ≤ s.term n
  stood_term : ∀ c t log, s.stood c t = some log → ∀ entry ∈ log, entry.term < t
  log_coherent : ∀ n, Coherent s (s.log n)
  stood_coherent : ∀ c t log, s.stood c t = some log → Coherent s log
  history_coherent : ∀ t, Coherent s (s.history t)
  acked_le : ∀ n t, s.acked n t ≤ (s.history t).length
  acked_term : ∀ n t, 0 < s.acked n t → t ≤ s.term n
  retains : ∀ v, RetainsAcked s v
  carries : ∀ t v c log, s.leader t = none → s.vote v t = some c → s.stood c t = some log →
    Carries s t v log
  stood_top : ∀ c t log, s.stood c t = some log → s.stoodCfg c t ≤ s.top
  cfg_top : ∀ n, s.cfg n ≤ s.top
  elected : ∀ t c, s.leader t = some c → ∃ Q ∈ s.quorum (s.stoodCfg c t),
    ∀ v ∈ Q, s.vote v t = some c ∧ Carries s t v (s.base t)

lemma inv_init (quorums : Set (Set N)) : Inv (State.init N V quorums) where
  vote_le := by intro v t c h; cases h
  vote_stood := by intro v t c h; cases h
  stood_vote := by intro c t log h; cases h
  leader_stood := by intro t c h; cases h
  leader_log := by intro c h; cases h
  history_nil := fun _ _ ↦ rfl
  base_history := by intro t h; exact absurd rfl h
  base_term := by intro t h; exact absurd rfl h
  own_term := by intro t i entry h; simp [State.init] at h
  log_term := by intro n entry h; simp [State.init] at h
  stood_term := by intro c t log h; cases h
  log_coherent := fun _ ↦ Coherent.nil _
  stood_coherent := by intro c t log h; cases h
  history_coherent := fun _ ↦ Coherent.nil _
  acked_le := fun _ _ ↦ le_rfl
  acked_term := by intro n t h; exact absurd h (lt_irrefl 0)
  retains := by intro v t i h; exact absurd h (Nat.not_lt_zero i)
  carries := by intro t v c log _ h; cases h
  stood_top := fun _ _ _ _ ↦ le_rfl
  cfg_top := fun _ ↦ le_rfl
  elected := by intro t c h; cases h

end Lockstep.Library.TermLog
