import Lockstep.Library.TermLogSafety

/-!
# The chain of configurations of the replicated-log machine

`ChainInv` is what the steps keep about configurations. Each node has reached the term in which the
configuration it uses was proposed. Quorums of one configuration meet, and so do quorums of
neighbours in the chain.
-/

namespace Lockstep.Library.TermLog

variable {N V : Type*} {s s' : State N V}

/-- The invariant of the chain of configurations. -/
structure ChainInv (s : State N V) : Prop where
  cfg_term : ∀ n k, 0 < k → k ≤ s.cfg n → s.proposed k ≤ s.term n
  stood_term : ∀ c t log, s.stood c t = some log → ∀ k, 0 < k → k ≤ s.stoodCfg c t →
    s.proposed k < t
  stood_cfg : ∀ c t log, s.stood c t = some log → s.stoodCfg c t ≤ s.cfg c
  proposer : ∀ k, k < s.top → ∃ c, s.leader (s.proposed (k + 1)) = some c ∧ k + 1 ≤ s.cfg c
  proposed_mono : ∀ j k, 0 < j → j ≤ k → k ≤ s.top → s.proposed j ≤ s.proposed k
  committed_quorum : ∀ t i k, s.committed t i k →
    OwnAt s t i ∧ ∃ Q ∈ s.quorum k, ∀ v ∈ Q, i < s.acked v t
  committed_top : ∀ t i k, s.committed t i k → k ≤ s.top
  committed_leader : ∀ t i k c, s.committed t i k → s.leader t = some c → s.stoodCfg c t ≤ k
  committed_term : ∀ t i k, s.committed t i k → ∀ j, 0 < j → j ≤ k → s.proposed j ≤ t
  meet_self : ∀ k, k ≤ s.top → Meet (s.quorum k) (s.quorum k)
  meet_next : ∀ k, k < s.top → Meet (s.quorum k) (s.quorum (k + 1))
  settled : ∀ k, 0 < k → k < s.top →
    ∃ Q ∈ s.quorum k, ∀ v ∈ Q, Enrolled s v (s.proposed (k + 1)) k
  barrier : ∀ k, k < s.top → ∃ b, s.committed (s.proposed (k + 1)) b k ∧
    ∀ i j, s.committed (s.proposed (k + 1)) i j → j ≤ k → i ≤ b

variable {quorums : Set (Set N)}

lemma chainInv_init (hmeet : Meet quorums quorums) : ChainInv (State.init N V quorums) where
  cfg_term := fun _ _ _ _ ↦ Nat.zero_le _
  stood_term := by intro c t log h; cases h
  stood_cfg := by intro c t log h; cases h
  proposer := by intro k h; exact absurd h (Nat.not_lt_zero k)
  proposed_mono := fun _ _ _ _ _ ↦ le_rfl
  committed_quorum := by intro t i k h; exact absurd h id
  committed_top := by intro t i k h; exact absurd h id
  committed_leader := by intro t i k c h; exact absurd h id
  committed_term := by intro t i k h; exact absurd h id
  meet_self := fun _ _ ↦ hmeet
  meet_next := by intro k h; exact absurd h (Nat.not_lt_zero k)
  settled := by intro k _ h; exact absurd h (Nat.not_lt_zero k)
  barrier := by intro k h; exact absurd h (Nat.not_lt_zero k)

/-- What the invariant says in a state that extends the one it holds in, for the configurations,
candidacies and commitments that were there. -/
structure ChainKept (s s' : State N V) : Prop where
  cfg_term : ∀ n k, 0 < k → k ≤ s.cfg n → s'.proposed k ≤ s'.term n
  stood_term : ∀ c t log, s.stood c t = some log → ∀ k, 0 < k → k ≤ s'.stoodCfg c t →
    s'.proposed k < t
  stood_cfg : ∀ c t log, s.stood c t = some log → s'.stoodCfg c t ≤ s'.cfg c
  proposer : ∀ k, k < s.top → ∃ c, s'.leader (s'.proposed (k + 1)) = some c ∧ k + 1 ≤ s'.cfg c
  committed_quorum : ∀ t i k, s.committed t i k →
    OwnAt s' t i ∧ ∃ Q ∈ s'.quorum k, ∀ v ∈ Q, i < s'.acked v t
  committed_leader : ∀ t i k c, s.committed t i k → s.leader t = some c → s'.stoodCfg c t ≤ k
  committed_term : ∀ t i k, s.committed t i k → ∀ j, 0 < j → j ≤ k → s'.proposed j ≤ t
  settled : ∀ k, 0 < k → k < s.top →
    ∃ Q ∈ s'.quorum k, ∀ v ∈ Q, Enrolled s' v (s'.proposed (k + 1)) k

lemma ChainInv.kept (hchain : ChainInv s) (hinv : Inv s) (hext : Extends s s') :
    ChainKept s s' where
  cfg_term := by
    intro n k hpos hk
    rw [hext.proposed k (hk.trans (hinv.cfg_top n))]
    exact (hchain.cfg_term n k hpos hk).trans (hext.term n)
  stood_term := by
    intro c t log h k hpos hk
    rw [hext.stoodCfg c t log h] at hk
    rw [hext.proposed k (hk.trans (hinv.stood_top c t log h))]
    exact hchain.stood_term c t log h k hpos hk
  stood_cfg := by
    intro c t log h
    rw [hext.stoodCfg c t log h]
    exact (hchain.stood_cfg c t log h).trans (hext.cfg c)
  proposer := by
    intro k hk
    obtain ⟨c, hc, hcfg⟩ := hchain.proposer k hk
    rw [hext.proposed (k + 1) hk]
    exact ⟨c, hext.leader _ c hc, hcfg.trans (hext.cfg c)⟩
  committed_quorum := by
    intro t i k h
    obtain ⟨hown, Q, hQ, hacked⟩ := hchain.committed_quorum t i k h
    refine ⟨hown.extends hext, Q, ?_, fun v hv ↦ (hacked v hv).trans_le (hext.acked v t)⟩
    rw [hext.quorum k (hchain.committed_top t i k h)]
    exact hQ
  committed_leader := by
    intro t i k c h hc
    rw [hext.stoodCfg c t _ (hinv.leader_stood t c hc)]
    exact hchain.committed_leader t i k c h hc
  committed_term := by
    intro t i k h j hpos hj
    rw [hext.proposed j (hj.trans (hchain.committed_top t i k h))]
    exact hchain.committed_term t i k h j hpos hj
  settled := by
    intro k hpos hk
    obtain ⟨Q, hQ, hv⟩ := hchain.settled k hpos hk
    rw [hext.quorum k hk.le, hext.proposed (k + 1) hk]
    exact ⟨Q, hQ, fun v hvQ ↦ hext.enrolled v _ k (hv v hvQ)⟩

/-! ### The steps that touch the chain -/

section Steps

variable {c : N}

lemma chainInv_elect (hinv : Inv s) (hchain : ChainInv s)
    (hleader : s.leader (s.term c) = none) : ChainInv (s.elect c) := by
  refine
    { hchain.kept hinv (extends_elect hinv hleader), hchain with
      committed_leader := fun t i k d h hd ↦ ?_ }
  by_cases ht : t = s.term c
  · -- nothing is committed in a term that had no leader
    subst ht
    obtain ⟨⟨entry, hentry, -⟩, -⟩ := hchain.committed_quorum _ i k h
    rw [hinv.history_nil _ hleader] at hentry
    cases hentry
  · rw [s.elect_leader_of_ne ht] at hd
    exact hchain.committed_leader t i k d h hd

lemma chainInv_commit (hinv : Inv s) (hchain : ChainInv s) {i : ℕ} {Q : Set N}
    (hleader : s.leader (s.term c) = some c) (hown : OwnAt s (s.term c) i)
    (hquorum : Q ∈ s.quorum (s.cfg c)) (hacked : ∀ v ∈ Q, i < s.acked v (s.term c)) :
    ChainInv (s.commit c i) := by
  have hkept := hchain.kept hinv (extends_commit c i)
  refine
    { hkept, hchain with
      committed_quorum := ?_, committed_top := ?_, committed_leader := ?_, committed_term := ?_
      barrier := fun k hk ↦ ?_ }
  · rintro t j k (h | ⟨rfl, rfl, rfl⟩)
    · exact hkept.committed_quorum t j k h
    · exact ⟨hown, Q, hquorum, hacked⟩
  · rintro t j k (h | ⟨rfl, rfl, rfl⟩)
    · exact hchain.committed_top t j k h
    · exact hinv.cfg_top c
  · rintro t j k d (h | ⟨rfl, rfl, rfl⟩) hd
    · exact hchain.committed_leader t j k d h hd
    · have hcd : c = d := Option.some.inj (hleader.symm.trans hd)
      subst hcd
      exact hchain.stood_cfg c _ _ (hinv.leader_stood _ c hleader)
  · rintro t j k (h | ⟨rfl, rfl, rfl⟩) m hpos hm
    · exact hchain.committed_term t j k h m hpos hm
    · exact hchain.cfg_term c m hpos hm
  · obtain ⟨b, hb, hlast⟩ := hchain.barrier k hk
    refine ⟨b, .inl hb, ?_⟩
    rintro j m (h | ⟨hterm, rfl, rfl⟩) hm
    · exact hlast j m h hm
    -- the leader that proposed the next configuration uses it by now
    obtain ⟨d, hd, hcfg⟩ := hchain.proposer k hk
    change s.proposed (k + 1) = s.term c at hterm
    rw [hterm, hleader] at hd
    cases hd
    omega

variable [DecidableEq N]

lemma chainInv_stand (hinv : Inv s) (hchain : ChainInv s) {n : N} {t : ℕ}
    (hterm : s.term n < t) : ChainInv (s.stand n t) := by
  have hkept := hchain.kept hinv (extends_stand hinv hterm)
  refine
    { hkept, hchain with
      stood_term := fun c u log h k hpos hk ↦ ?_, stood_cfg := fun c u log h ↦ ?_ }
  · rcases update₂_cases h with ⟨rfl, rfl, -⟩ | h
    · have hself : (s.stand c u).stoodCfg c u = s.cfg c := update₂_self _ _ _ _
      rw [hself] at hk
      exact (hchain.cfg_term c k hpos hk).trans_lt hterm
    · exact hkept.stood_term c u log h k hpos hk
  · rcases update₂_cases h with ⟨rfl, rfl, -⟩ | h
    · exact (update₂_self _ _ _ _).le
    · exact hkept.stood_cfg c u log h

lemma chainInv_enroll (hinv : Inv s) (hchain : ChainInv s) {n : N} {k : ℕ}
    (hcfg : s.cfg n < k) (htop : k ≤ s.top) (hterm : s.proposed k ≤ s.term n) :
    ChainInv (s.enroll n k) :=
  { hchain.kept hinv (extends_enroll hcfg), hchain with
    cfg_term := (Function.forall_update_iff s.cfg
      fun m i ↦ ∀ j, 0 < j → j ≤ i → s.proposed j ≤ s.term m).mpr
        ⟨fun j hpos hj ↦ (hchain.proposed_mono j k hpos hj htop).trans hterm,
          fun m _ ↦ hchain.cfg_term m⟩ }

omit [DecidableEq N] in
lemma proposed_le_term (hchain : ChainInv s) (hcfg : s.cfg c = s.top) {j : ℕ}
    (hpos : 0 < j) (hj : j ≤ s.top) : s.proposed j ≤ s.term c :=
  hchain.cfg_term c j hpos (hj.trans_eq hcfg.symm)

lemma chainInv_propose (hinv : Inv s) (hchain : ChainInv s)
    {barrier : ℕ} (hleader : s.leader (s.term c) = some c) (hcfg : s.cfg c = s.top)
    (hself : Meet quorums quorums) (hnext : Meet (s.quorum s.top) quorums)
    (hsettled : 0 < s.top → ∃ Q ∈ s.quorum s.top, ∀ v ∈ Q, Enrolled s v (s.term c) s.top)
    (hbarrier : s.committed (s.term c) barrier s.top)
    (hlast : ∀ i k, s.committed (s.term c) i k → i ≤ barrier) :
    ChainInv (s.propose c quorums) := by
  have hext := extends_propose hinv c quorums
  have hkept := hchain.kept hinv hext
  have hsplit : ∀ {k}, k < s.top + 1 → k < s.top ∨ k = s.top := by
    intro k hk
    omega
  refine
    { hkept, hchain with
      cfg_term := (Function.forall_update_iff s.cfg fun m i ↦ ∀ j, 0 < j → j ≤ i →
        (s.propose c quorums).proposed j ≤ s.term m).mpr
          ⟨fun k hpos hk ↦ ?_, fun n _ ↦ hkept.cfg_term n⟩
      proposer := fun k hk ↦ ?_, proposed_mono := fun j k hpos hjk hk ↦ ?_
      committed_top := fun t i k h ↦ (hchain.committed_top t i k h).trans (Nat.le_succ _)
      meet_self := fun k hk ↦ ?_, meet_next := fun k hk ↦ ?_
      settled := fun k hpos hk ↦ ?_, barrier := fun k hk ↦ ?_ }
  · rcases Nat.le_succ_iff.mp hk with hk | rfl
    · rw [s.propose_proposed_of_le hk]
      exact proposed_le_term hchain hcfg hpos hk
    · exact (s.propose_proposed_self c quorums).le
  · rcases hsplit hk with hk | rfl
    · exact hkept.proposer k hk
    · refine ⟨c, ?_, (s.propose_cfg_self c quorums).ge⟩
      rw [s.propose_proposed_self]
      exact hleader
  · rcases Nat.le_succ_iff.mp hk with hk | rfl
    · rw [s.propose_proposed_of_le hk, s.propose_proposed_of_le (hjk.trans hk)]
      exact hchain.proposed_mono j k hpos hjk hk
    rw [s.propose_proposed_self]
    rcases Nat.le_succ_iff.mp hjk with hj | rfl
    · rw [s.propose_proposed_of_le hj]
      exact proposed_le_term hchain hcfg hpos hj
    · exact (s.propose_proposed_self c quorums).le
  · rcases Nat.le_succ_iff.mp hk with hk | rfl
    · rw [s.propose_quorum_of_le hk]
      exact hchain.meet_self k hk
    · rw [s.propose_quorum_self]
      exact hself
  · rcases hsplit hk with hk | rfl
    · rw [s.propose_quorum_of_le hk.le, s.propose_quorum_of_le hk]
      exact hchain.meet_next k hk
    · rw [s.propose_quorum_of_le le_rfl, s.propose_quorum_self]
      exact hnext
  · rcases hsplit hk with hk | rfl
    · exact hkept.settled k hpos hk
    · obtain ⟨Q, hQ, hv⟩ := hsettled hpos
      rw [s.propose_quorum_of_le le_rfl, s.propose_proposed_self]
      exact ⟨Q, hQ, fun v hvQ ↦ hext.enrolled v _ _ (hv v hvQ)⟩
  · rcases hsplit hk with hk | rfl
    · rw [s.propose_proposed_of_le hk]
      exact hchain.barrier k hk
    · rw [s.propose_proposed_self]
      exact ⟨barrier, hbarrier, fun i j h _ ↦ hlast i j h⟩

lemma Step.chainInv (hstep : Step s s') (hinv : Inv s) (hchain : ChainInv s) : ChainInv s' := by
  have hkept := hchain.kept hinv (hstep.extends hinv)
  cases hstep with
  | bump n t hterm => exact { hkept, hchain with }
  | stand n t hterm => exact chainInv_stand hinv hchain hterm
  | grant v c offered hvote hstood hlog hcfg => exact { hkept, hchain with }
  | elect c Q hleader hstood hquorum hvotes => exact chainInv_elect hinv hchain hleader
  | append c entry hleader hentry => exact { hkept, hchain with }
  | adopt n k hleader hk => exact { hkept, hchain with }
  | commit c i Q hleader hown hquorum hacked =>
    exact chainInv_commit hinv hchain hleader hown hquorum hacked
  | enroll n k hcfg htop hterm => exact chainInv_enroll hinv hchain hcfg htop hterm
  | propose c quorums barrier hleader hcfg hself hnext hsettled hbarrier hlast =>
    exact chainInv_propose hinv hchain hleader hcfg hself hnext hsettled hbarrier hlast

end Steps

end Lockstep.Library.TermLog
