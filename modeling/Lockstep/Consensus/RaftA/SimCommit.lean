import Lockstep.Consensus.RaftA.SimReplication

/-!
# Committing, applying and compacting keep a node related to the machine

The commit rule makes the leader declare a position committed; the quorum is the set of members the
leader has counted. Applying and compacting move entries from the log into the snapshot and leave
the logical log, and with it the machine, as they are.
-/

namespace Lockstep.Consensus.RaftA

open Library TermLog Node
open List

variable {cc : ClusterConfig} {a : Machine} {n : NodeId} {s : Node} {m : RaftMsg}

namespace NodeSim

lemma takeSnapshot (h : NodeSim cc a n s) (hlt : s.snapBase < s.appliedIndex) :
    NodeSim cc a n s.takeSnapshot := by
  have hle : s.appliedIndex ≤ s.llen := h.applied_le.trans h.commit_le
  rw [takeSnapshot_eq h.snap_len h.persisted hlt hle]
  have hlog : s.appliedIndex - s.snapBase ≤ s.log.length := by
    rw [llen] at hle
    omega
  have hview : s.snapState ++ s.log.take (s.appliedIndex - s.snapBase) ++
      s.log.drop (s.appliedIndex - s.snapBase) = s.logView := by
    rw [append_assoc, take_append_drop, logView]
  have hlen : s.appliedIndex + (s.log.drop (s.appliedIndex - s.snapBase)).length = s.llen := by
    rw [length_drop, llen]
    omega
  exact
    { h with
      log_eq := h.log_eq.trans hview.symm
      snap_len := by
        dsimp only
        rw [length_append, h.snap_len, length_take_of_le hlog]
        omega
      persisted := rfl
      base_applied := le_rfl
      commit_le := h.commit_le.trans_eq hlen.symm
      committed := by
        have hcommitted := h.committed
        rw [← hview] at hcommitted
        exact hcommitted
      candidate := fun hrole ↦
        { h.candidate hrole with
          stood := (h.candidate hrole).stood.trans (congrArg some hview.symm) }
      leader := fun hrole ↦
        { h.leader hrole with
          self_acked := hlen.trans_le (h.leader hrole).self_acked
          next := fun v hv ↦ ((h.leader hrole).next v hv).trans_eq (congrArg (· + 1) hlen.symm) } }

lemma applyAndMaybeSnapshot (h : NodeSim cc a n s) :
    NodeSim cc a n s.applyAndMaybeSnapshot := by
  have happlied : NodeSim cc a n { s with appliedIndex := max s.appliedIndex s.commitIndex } :=
    { h with
      base_applied := h.base_applied.trans (le_max_left _ _)
      applied_le := max_le h.applied_le le_rfl
      candidate := fun hrole ↦ { h.candidate hrole with }
      leader := fun hrole ↦ { h.leader hrole with } }
  rw [applyAndMaybeSnapshot_eq]
  split_ifs with htake
  · exact happlied.takeSnapshot htake.1
  · exact happlied

/-! ### The commit rule -/

section

variable (h : NodeSim cc a n s)

include h

/-- Those the leader has counted are a quorum that has acknowledged the position. -/
lemma agree_quorum (hn : n ∈ cc.cluster) (hrole : s.role = .leader)
    {c : ℕ} (hpos : 0 < c) (hc : c ≤ s.llen) (hquorum : s.quorum ≤ s.agreeCount c) :
    ∃ Q ∈ a.quorum (a.cfg n), ∀ v ∈ Q, c - 1 < a.acked v s.currentTerm := by
  have hnodup : s.cfg.cluster.Nodup := h.cluster_eq.symm ▸ cc.cluster_nodup
  rw [agreeCount_eq hnodup (h.match_len.trans (congrArg _ h.cluster_eq.symm)),
    quorum_eq_half h.chain_len] at hquorum
  rw [h.cfg_idx, h.quorum_eq]
  refine ⟨_, mem_majorities_of_countP hnodup hquorum fun v _ hcounted ↦
    mem_of_inCurrentConfig (Bool.and_eq_true_iff.mp hcounted).1, ?_⟩
  · rintro v ⟨hv, hcounted⟩
    have hvcc : v ∈ cc.cluster := h.cluster_eq ▸ hv
    have hncc : n ∈ s.cfg.cluster := h.cluster_eq.symm ▸ hn
    rcases Bool.or_eq_true_iff.mp (Bool.and_eq_true_iff.mp hcounted).2 with hself | hmatched
    · have hidx : s.idxOf v = s.idxOf n := by
        rw [idxOf_of_mem hv, of_decide_eq_true hself, selfIdx, h.self_eq]
      rw [idxOf_inj hv hncc hidx]
      have hacked := (h.leader hrole).self_acked
      omega
    · have hle := of_decide_eq_true hmatched
      have hacked := (h.leader hrole).matched v hvcc
      rw [idxOf_of_mem hv] at hacked
      omega

lemma ownAt_of_termAt (hsound : Sound a) (hrole : s.role = .leader)
    {c : ℕ} (hpos : 0 < c) (hc : c ≤ s.llen) (hterm : s.termAt c = s.currentTerm) :
    OwnAt a s.currentTerm (c - 1) := by
  have hget := logView_getElem? h.snap_len hpos hc
  refine ⟨s.entryAt c, ?_, ?_⟩
  · rw [h.history_eq hsound hrole]
    exact hget
  · rw [← hterm]
    exact (termAt_of_getElem? h.snap_len hpos hget).symm

/-- Raising the commit index is the machine's `commit`. -/
lemma commitTo (hsound : Sound a) (hn : n ∈ cc.cluster)
    (hrole : s.role = .leader) {c : ℕ} (hpos : 0 < c) (hle : s.commitIndex ≤ c) (hc : c ≤ s.llen)
    (hterm : s.termAt c = s.currentTerm) (hquorum : s.quorum ≤ s.agreeCount c) :
    Moves n a (a.commit n (c - 1)) ∧
      NodeSim cc (a.commit n (c - 1)) n { s with commitIndex := c } := by
  have hleads := (h.leader hrole).leads
  have hown := h.ownAt_of_termAt hsound hrole hpos hc hterm
  obtain ⟨Q, hQ, hacked⟩ := h.agree_quorum hn hrole hpos hc hquorum
  have hmoves : Moves n a (a.commit n (c - 1)) := by
    rw [← h.term_eq] at hleads hown hacked
    exact Moves.commit hleads hown hQ hacked
  have hext := hmoves.ext
  refine ⟨hmoves, ?_⟩
  have hlast : CommittedPrefix (a.commit n (c - 1)) s.currentTerm (s.logView.take c) := by
    refine .inr ⟨s.currentTerm, c - 1, a.cfg n, le_rfl,
      .inr ⟨h.term_eq.symm, rfl, rfl⟩, ?_⟩
    change s.logView.take c <+: (a.history s.currentTerm).take (c - 1 + 1)
    rw [h.history_eq hsound hrole, Nat.sub_add_cancel hpos]
  exact
    { h with
      applied_le := h.applied_le.trans hle
      commit_le := hc
      committed := hlast
      candidate := fun hcand ↦ by rw [hrole] at hcand; cases hcand
      leader := fun _ ↦
        { h.leader hrole with
          declared := by
            rintro i k (hold | ⟨-, rfl, -⟩)
            · exact ((h.leader hrole).declared i k hold).trans_le hle
            · exact Nat.sub_lt hpos Nat.one_pos }
      outbox := fun msg hmsg ↦ (h.outbox msg hmsg).extends hsound hext }

lemma advanceCommitIndex (hsound : Sound a) (hn : n ∈ cc.cluster) :
    ∃ a', Moves n a a' ∧ NodeSim cc a' n s.advanceCommitIndex := by
  rw [Node.advanceCommitIndex]
  split_ifs with hrole
  · exact ⟨a, Moves.refl n a, h⟩
  rcases Node.advanceFrom_eq h.snap_len s.llen with heq | ⟨c, hlt, hle, hterm, hquorum, heq⟩
  · rw [heq]
    exact ⟨a, Moves.refl n a, h⟩
  · rw [heq]
    exact ⟨_, h.commitTo hsound hn (not_not.mp hrole) (Nat.zero_lt_of_lt hlt) hlt.le hle hterm
      hquorum⟩

lemma advanceN1SelfCommit (hsound : Sound a) (hn : n ∈ cc.cluster) :
    ∃ a', Moves n a a' ∧ NodeSim cc a' n s.advanceN1SelfCommit := by
  rw [Node.advanceN1SelfCommit]
  split_ifs
  · exact ⟨a, Moves.refl n a, h⟩
  · obtain ⟨a', hmoves, hsim⟩ := h.advanceCommitIndex hsound hn
    exact ⟨a', hmoves, hsim.applyAndMaybeSnapshot⟩

end

lemma enrolled_self (h : NodeSim cc a n s) (hsound : Sound a) :
    Enrolled a n s.currentTerm s.cfgIdx := by
  refine ⟨h.cfg_idx.ge, fun u c hu hvote ↦ ?_⟩
  have hle := hsound.inv.vote_le n u c hvote
  rw [h.term_eq] at hle
  exact absurd hu (not_lt.mpr hle)

lemma maybeCommitConfig (h : NodeSim cc a n s) (hsound : Sound a) :
    NodeSim cc a n s.maybeCommitConfig := by
  rw [Node.maybeCommitConfig]
  dsimp only
  split_ifs with hstop hdone hcount
  · exact h
  · exact h
  · have hhead : s.cfgChain.length - 1 = s.cfgIdx := by rw [h.chain_len]; rfl
    have hnodup : s.cfg.cluster.Nodup := h.cluster_eq.symm ▸ cc.cluster_nodup
    rw [hhead] at hcount ⊢
    rw [adoptedCount_eq hnodup, ← currentConfig_eq h.chain_len] at hcount
    have hhalf : ∀ {x y : ℕ}, x < y * 2 → x / 2 + 1 ≤ y := fun hlt ↦ by omega
    have hquorum := mem_majorities_of_countP hnodup (hhalf hcount) fun v _ hcounted ↦
      of_decide_eq_true (Bool.and_eq_true_iff.mp hcounted).1
    rw [← h.quorum_eq] at hquorum
    refine
      { h with
        candidate := fun hrole ↦ { h.candidate hrole with }
        leader := fun hrole ↦ { h.leader hrole with settled := fun _ _ ↦ ⟨_, hquorum, ?_⟩ } }
    · rintro v ⟨hv, hcounted⟩
      have hadopted := (Bool.and_eq_true_iff.mp hcounted).2
      split_ifs at hadopted with hself
      · rw [hself, h.self_eq]
        exact h.enrolled_self hsound
      · have henrolled := (h.leader hrole).adopted v (h.cluster_eq ▸ hv)
        rw [idxOf_of_mem hv] at henrolled
        exact henrolled.mono (of_decide_eq_true hadopted)
  · exact h

end NodeSim

end Lockstep.Consensus.RaftA
