import Lockstep.Library.TermLogAgreement

/-!
# Moves of one node

A concrete protocol runs one node at a time, and a handler of it amounts to a few steps of the
replicated-log machine that all belong to that node.
-/

namespace Lockstep.Library.TermLog

variable {N V : Type*} [DecidableEq N] {n : N} {s s' s₁ s₂ s₃ : State N V}

/-- The invariants of the machine. -/
structure Sound (s : State N V) : Prop where
  inv : Inv s
  chain : ChainInv s

omit [DecidableEq N] in
lemma sound_init {quorums : Set (Set N)} (hmeet : Meet quorums quorums) :
    Sound (State.init N V quorums) :=
  ⟨inv_init quorums, chainInv_init hmeet⟩

lemma Sound.of_steps (hsound : Sound s) (hsteps : Relation.ReflTransGen Step s s') :
    Sound s' := by
  induction hsteps with
  | refl => exact hsound
  | tail _ hstep ih => exact ⟨hstep.inv ih.inv, hstep.chainInv ih.inv ih.chain⟩

lemma Sound.extends_of_steps (hsound : Sound s) (hsteps : Relation.ReflTransGen Step s s') :
    Extends s s' := by
  induction hsteps with
  | refl => exact Extends.refl s
  | tail hsteps hstep ih => exact ih.trans (hstep.extends (hsound.of_steps hsteps).inv)

variable {common : List (Entry V)}

lemma Step.prefix_log (hstep : Step s s') (hsound : Sound s)
    (hcommitted : CommittedPrefix s (s.term n) common) (hlog : common <+: s.log n) :
    common <+: s'.log n := by
  cases hstep with
  | append c entry =>
    by_cases hn : n = c
    · subst hn
      rw [s.append_log_self]
      exact hlog.trans (List.prefix_append _ _)
    · rwa [s.append_log_of_ne hn]
  | adopt m k hleader hk =>
    by_cases hn : n = m
    · subst hn
      rw [s.adopt_log_self]
      exact prefix_adoptLog_of_prefix hlog
        (hcommitted.prefix_history hsound.inv hsound.chain hleader) k
    · rwa [s.adopt_log_of_ne hn]
  | _ => exact hlog

lemma Sound.prefix_log_of_steps (hsound : Sound s) (hsteps : Relation.ReflTransGen Step s s')
    (hcommitted : CommittedPrefix s (s.term n) common)
    (hlog : common <+: s.log n) : common <+: s'.log n := by
  induction hsteps with
  | refl => exact hlog
  | tail hsteps hstep ih =>
    have hext := hsound.extends_of_steps hsteps
    exact hstep.prefix_log (hsound.of_steps hsteps)
      ((hcommitted.extends hsound.chain hext).mono List.prefix_rfl (hext.term n)) ih

/-- The second state is reached from the first by steps of one node. -/
structure Moves (n : N) (s s' : State N V) : Prop where
  steps : Relation.ReflTransGen Step s s'
  ext : Extends s s'
  term : ∀ m, m ≠ n → s'.term m = s.term m
  log : ∀ m, m ≠ n → s'.log m = s.log m
  vote : ∀ m, m ≠ n → ∀ t, s'.vote m t = s.vote m t
  cfg : ∀ m, m ≠ n → s'.cfg m = s.cfg m
  leader : ∀ m, m ≠ n → ∀ t, s'.leader t = some m → s.leader t = some m
  committed : ∀ t i k, s'.committed t i k → s.committed t i k ∨ s'.leader t = some n

namespace Moves

lemma refl (n : N) (s : State N V) : Moves n s s where
  steps := .refl
  ext := Extends.refl s
  term := fun _ _ ↦ rfl
  log := fun _ _ ↦ rfl
  vote := fun _ _ _ ↦ rfl
  cfg := fun _ _ ↦ rfl
  leader := fun _ _ _ h ↦ h
  committed := fun _ _ _ h ↦ Or.inl h

lemma trans (h₁ : Moves n s₁ s₂) (h₂ : Moves n s₂ s₃) : Moves n s₁ s₃ where
  steps := h₁.steps.trans h₂.steps
  ext := h₁.ext.trans h₂.ext
  term := fun m hm ↦ (h₂.term m hm).trans (h₁.term m hm)
  log := fun m hm ↦ (h₂.log m hm).trans (h₁.log m hm)
  vote := fun m hm t ↦ (h₂.vote m hm t).trans (h₁.vote m hm t)
  cfg := fun m hm ↦ (h₂.cfg m hm).trans (h₁.cfg m hm)
  leader := fun m hm t h ↦ h₁.leader m hm t (h₂.leader m hm t h)
  committed := by
    intro t i k h
    rcases h₂.committed t i k h with h | h
    · rcases h₁.committed t i k h with h | h
      · exact .inl h
      · exact .inr (h₂.ext.leader t n h)
    · exact .inr h

lemma sound (h : Moves n s s') (hsound : Sound s) : Sound s' :=
  hsound.of_steps h.steps

lemma bump {t : ℕ} (hterm : s.term n < t) : Moves n s (s.bump n t) :=
  { refl n s with
    steps := .single (.bump s n t hterm)
    ext := extends_bump hterm
    term := fun _ hm ↦ Function.update_of_ne hm _ _ }

lemma stand (hinv : Inv s) {t : ℕ} (hterm : s.term n < t) : Moves n s (s.stand n t) :=
  { refl n s with
    steps := .single (.stand s n t hterm)
    ext := extends_stand hinv hterm
    term := fun _ hm ↦ Function.update_of_ne hm _ _
    vote := fun _ hm _ ↦ update₂_of_ne _ _ fun h ↦ hm h.1 }

lemma grant {c : N} {offered : List (Entry V)} (hvote : s.vote n (s.term n) = none)
    (hstood : s.stood c (s.term n) = some offered) (hlog : UpToDate offered (s.log n))
    (hcfg : s.cfg n ≤ s.stoodCfg c (s.term n)) : Moves n s (s.grant n c) :=
  { refl n s with
    steps := .single (.grant s n c offered hvote hstood hlog hcfg)
    ext := extends_grant hvote hcfg
    vote := fun _ hm _ ↦ update₂_of_ne _ _ fun h ↦ hm h.1 }

lemma elect (hinv : Inv s) {Q : Set N} (hleader : s.leader (s.term n) = none)
    (hstood : s.stood n (s.term n) = some (s.log n))
    (hquorum : Q ∈ s.quorum (s.stoodCfg n (s.term n)))
    (hvotes : ∀ v ∈ Q, s.vote v (s.term n) = some n) : Moves n s (s.elect n) :=
  { refl n s with
    steps := .single (.elect s n Q hleader hstood hquorum hvotes)
    ext := extends_elect hinv hleader
    committed := fun _ _ _ h ↦ Or.inl h
    leader := by
      intro m hm t h
      by_cases ht : t = s.term n
      · rw [ht, s.elect_leader_self] at h
        exact absurd (Option.some.inj h).symm hm
      · rwa [s.elect_leader_of_ne ht] at h }

lemma append (hinv : Inv s) {entry : Entry V} (hleader : s.leader (s.term n) = some n)
    (hentry : entry.term = s.term n) : Moves n s (s.append n entry) :=
  { refl n s with
    steps := .single (.append s n entry hleader hentry)
    ext := extends_append hinv entry hleader
    log := fun _ hm ↦ s.append_log_of_ne hm entry }

lemma adopt {k : ℕ} (hleader : s.leader (s.term n) ≠ none)
    (hk : k ≤ (s.history (s.term n)).length) : Moves n s (s.adopt n k) :=
  { refl n s with
    steps := .single (.adopt s n k hleader hk)
    ext := extends_adopt k
    log := fun _ hm ↦ s.adopt_log_of_ne hm k }

lemma commit {i : ℕ} {Q : Set N} (hleader : s.leader (s.term n) = some n)
    (hown : OwnAt s (s.term n) i) (hquorum : Q ∈ s.quorum (s.cfg n))
    (hacked : ∀ v ∈ Q, i < s.acked v (s.term n)) : Moves n s (s.commit n i) :=
  { refl n s with
    steps := .single (.commit s n i Q hleader hown hquorum hacked)
    ext := extends_commit n i
    committed := by
      rintro t j k (h | ⟨rfl, -, -⟩)
      · exact .inl h
      · exact .inr hleader }

lemma enroll {k : ℕ} (hcfg : s.cfg n < k) (htop : k ≤ s.top) (hterm : s.proposed k ≤ s.term n) :
    Moves n s (s.enroll n k) :=
  { refl n s with
    steps := .single (.enroll s n k hcfg htop hterm)
    ext := extends_enroll hcfg
    cfg := fun _ hm ↦ Function.update_of_ne hm _ _ }

lemma propose (hinv : Inv s) {quorums : Set (Set N)} {barrier : ℕ}
    (hleader : s.leader (s.term n) = some n) (hcfg : s.cfg n = s.top)
    (hself : Meet quorums quorums) (hnext : Meet (s.quorum s.top) quorums)
    (hsettled : 0 < s.top → ∃ Q ∈ s.quorum s.top, ∀ v ∈ Q, Enrolled s v (s.term n) s.top)
    (hbarrier : s.committed (s.term n) barrier s.top)
    (hlast : ∀ i k, s.committed (s.term n) i k → i ≤ barrier) :
    Moves n s (s.propose n quorums) :=
  { refl n s with
    steps := .single
      (.propose s n quorums barrier hleader hcfg hself hnext hsettled hbarrier hlast)
    ext := extends_propose hinv n quorums
    cfg := fun _ hm ↦ Function.update_of_ne hm _ _ }

end Moves

end Lockstep.Library.TermLog
