import Lockstep.Consensus.RaftA.SimAppend

/-!
# Configuration changes keep a node related to the machine

Adopting a configuration is the machine's `enroll`. Proposing one is its `propose`, which asks for
more than `propose_config_change` tests: nobody may hold a longer chain than the leader, and the
leader must have committed an entry of its own term under its current configuration
(`Node.confirmsConfig`).
-/

namespace Lockstep.Consensus.RaftA

open Library TermLog Node List Option

variable {cc : ClusterConfig} {a : Machine} {n : NodeId} {s : Node} {m : RaftMsg}

/-- The leader's commit index is an entry of its own term that a quorum of its current configuration
stores. -/
def Node.confirmsConfig (s : Node) : Prop :=
  0 < s.commitIndex ∧ s.termAt s.commitIndex = s.currentTerm ∧
    s.quorum ≤ s.agreeCount s.commitIndex

instance (s : Node) : Decidable s.confirmsConfig := by
  unfold confirmsConfig
  infer_instance

variable {server : NodeId} {add : Bool}

namespace Node

lemma adoptConfig_chain (hchain : s.cfgChain.length = s.cfgIdx + 1) {idx : ℕ}
    (hidx : s.cfgIdx < idx) (members : List NodeId) :
    (s.adoptConfig idx members).cfgChain.length = idx + 1 ∧
      (s.adoptConfig idx members).currentConfig = members := by
  have hlen : (s.cfgChain ++ replicate (idx + 1 - s.cfgChain.length) []).length =
      idx + 1 := by
    rw [length_append, length_replicate]
    omega
  refine ⟨(length_set ..).trans hlen, ?_⟩
  rw [currentConfig_eq ((length_set ..).trans hlen)]
  change ((s.cfgChain ++ _).set idx members).getD idx [] = members
  rw [getD_eq_getElem?_getD, getElem?_set_self (by omega), getD_some]

lemma meet_changedConfig {cur : List NodeId} (hmember : add ≠ inConfig cur server) :
    Meet (majorities cur) (majorities (changedConfig cur server add)) := by
  rw [changedConfig]
  cases add with
  | true => exact meet_majorities_append cur server
  | false =>
    have hin : inConfig cur server = true := by simpa using hmember.symm
    exact meet_majorities_filter (of_decide_eq_true hin)

lemma proposedConfig_eq_some {nc : List NodeId} (h : s.proposedConfig server add = some nc) :
    s.role = .leader ∧ s.cfgCommittedIdx = s.cfgIdx ∧
      Meet (majorities (s.cfgChain.getD s.cfgIdx [])) (majorities nc) := by
  rw [proposedConfig] at h
  split_ifs at h with hrole hhead hmember
  rw [not_or, not_not, not_not] at hhead
  rw [not_or, not_not] at hrole
  refine ⟨hrole.2, hhead.2, ?_⟩
  rw [← some.inj h, majorities_perm (perm_insertionSort (· ≤ ·) _)]
  exact meet_changedConfig hmember

end Node

namespace NodeSim

/-! ### Adopting a configuration -/

lemma adoptConfig (h : NodeSim cc a n s) (hsound : Sound a) (hrole : s.role = .follower)
    (hm : ConfigOk a m) (hterm : m.term = s.currentTerm) (hidx : s.cfgIdx < m.configChainIndex) :
    Moves n a (a.enroll n m.configChainIndex) ∧
      NodeSim cc (a.enroll n m.configChainIndex) n
        (s.adoptConfig m.configChainIndex m.configMembers) := by
  obtain ⟨hchain, hconfig⟩ := adoptConfig_chain h.chain_len hidx m.configMembers
  have hproposed := hm.proposed (Nat.zero_lt_of_lt hidx)
  rw [hterm, ← h.term_eq] at hproposed
  have hmoves : Moves n a (a.enroll n m.configChainIndex) :=
    Moves.enroll (h.cfg_idx.trans_lt hidx) hm.top hproposed
  refine ⟨hmoves, ?_⟩
  exact
    { h with
      committed := h.committed.extends hsound.chain hmoves.ext
      chain_len := hchain
      cfg_idx := a.enroll_cfg_self n _
      quorum_eq := hm.members.trans (congrArg majorities hconfig.symm)
      candidate := fun hcand ↦ by cases hrole.symm.trans hcand
      leader := fun hlead ↦ by cases hrole.symm.trans hlead
      outbox := fun msg hmsg ↦ (h.outbox msg hmsg).extends hsound hmoves.ext }

lemma handleConfigChange (h : NodeSim cc a n s) (hsound : Sound a) (hn : n ∈ cc.cluster)
    (hterm : m.term ≤ s.currentTerm) (hm : ConfigOk a m) :
    ∃ a', Moves n a a' ∧ NodeSim cc a' n (s.handleConfigChange m) := by
  rw [Node.handleConfigChange]
  split_ifs with hstale
  · exact ⟨a, Moves.refl n a, h⟩
  have hterm : m.term = s.currentTerm := by omega
  extract_lets follower adopted
  have hfollower : NodeSim cc a n follower := h.toFollower m.source
  obtain ⟨a', hmoves, hadopted⟩ : ∃ a', Moves n a a' ∧ NodeSim cc a' n adopted := by
    by_cases hidx : follower.cfgIdx < m.configChainIndex
    · rw [show adopted = _ from if_pos hidx]
      exact ⟨_, hfollower.adoptConfig hsound rfl hm hterm hidx⟩
    · rw [show adopted = _ from if_neg hidx]
      exact ⟨a, Moves.refl n a, hfollower⟩
  refine ⟨a', hmoves, hadopted.sendTo ⟨hadopted.self_eq.symm ▸ hn, ?_⟩⟩
  have henrolled := hadopted.enrolled_self (hmoves.sound hsound)
  exact hadopted.self_eq.symm ▸ henrolled

lemma handleConfigChangeResp (h : NodeSim cc a n s) (hsound : Sound a)
    (hsource : m.source ∈ cc.cluster) (hm : Enrolled a m.source m.term m.configChainIndex) :
    NodeSim cc a n (s.handleConfigChangeResp m) := by
  rw [Node.handleConfigChangeResp]
  split_ifs with hskip
  · exact h
  obtain ⟨hrole, hterm⟩ := Node.leads_of_not_skip hskip
  rw [hterm] at hm
  refine NodeSim.maybeCommitConfig ?_ hsound
  refine
    { h with
      adopted_len := (length_set ..).trans h.adopted_len
      candidate := fun hcand ↦ { h.candidate hcand with }
      leader := fun hlead ↦ { h.leader hlead with adopted := fun v hv ↦ ?_ } }
  change Enrolled a v s.currentTerm ((s.cfgAdopted.set (s.idxOf m.source)
    (max (s.cfgAdopted.getD (s.idxOf m.source) 0) m.configChainIndex)).getD (s.idxOf v) 0)
  rw [getD_set_idxOf (h.adopted_len.trans (congrArg _ h.cluster_eq.symm))
    (h.cluster_eq.symm ▸ hv) (h.cluster_eq.symm ▸ hsource)]
  split_ifs with heq
  · rw [heq]
    rcases Nat.le_total (s.cfgAdopted.getD (s.idxOf m.source) 0) m.configChainIndex with
      hle | hle
    · rw [Nat.max_eq_right hle]
      exact hm
    · rw [Nat.max_eq_left hle]
      exact (h.leader hrole).adopted m.source hsource
  · exact (h.leader hrole).adopted v hv

/-! ### Proposing a configuration -/

lemma extendChain (h : NodeSim cc a n s) (hsound : Sound a) (hrole : s.role = .leader)
    {nc : List NodeId} (htop : a.top ≤ s.cfgIdx) (hcommitted : s.cfgCommittedIdx = s.cfgIdx)
    (hmeet : Meet (majorities s.currentConfig) (majorities nc)) {barrier : ℕ}
    (hbarrier : a.committed s.currentTerm barrier s.cfgIdx) (hlast : s.commitIndex = barrier + 1) :
    Moves n a (a.propose n (majorities nc)) ∧
      NodeSim cc (a.propose n (majorities nc)) n
        { s with cfgChain := s.cfgChain ++ [nc], cfgIdx := s.cfgChain.length } := by
  have hleader := h.leader hrole
  have htop : s.cfgIdx = a.top := le_antisymm (h.cfgIdx_le_top hsound) htop
  have hchain := h.chain_len
  have hmoves : Moves n a (a.propose n (majorities nc)) := by
    have hleads := hleader.leads
    have hsettled := hleader.settled hcommitted
    have hquorum := h.quorum_eq
    have hdeclared := hleader.declared
    rw [htop] at hsettled hquorum hbarrier
    rw [← h.term_eq] at hleads hsettled hbarrier hdeclared
    refine Moves.propose hsound.inv hleads (h.cfg_idx.trans htop) (meet_majorities_self nc)
      (hquorum.symm ▸ hmeet) hsettled hbarrier fun i k hi ↦ ?_
    have hlt := hdeclared i k hi
    omega
  refine ⟨hmoves, ?_⟩
  have hnext : s.cfgChain.length = a.top + 1 := by omega
  exact
    { h with
      committed := h.committed.extends hsound.chain hmoves.ext
      chain_len := length_append
      cfg_idx := (a.propose_cfg_self n _).trans hnext.symm
      quorum_eq := by
        rw [currentConfig_eq length_append]
        change (a.propose n _).quorum s.cfgChain.length =
          majorities ((s.cfgChain ++ [nc]).getD s.cfgChain.length [])
        rw [hnext, a.propose_quorum_self, ← hnext, getD_eq_getElem?_getD,
          getElem?_concat_length, getD_some]
      candidate := fun hcand ↦ by cases hrole.symm.trans hcand
      leader := fun _ ↦
        { hleader.extends hmoves.ext (h.cfgIdx_le_top hsound) hleader.declared with
          settled := fun hsettled _ ↦ by
            change s.cfgCommittedIdx = s.cfgChain.length at hsettled
            omega }
      outbox := fun msg hmsg ↦ (h.outbox msg hmsg).extends hsound hmoves.ext }

lemma proposeConfigChange (h : NodeSim cc a n s) (hsound : Sound a) (hn : n ∈ cc.cluster)
    (hcondition : (s.proposedConfig server add).isSome → a.top ≤ s.cfgIdx ∧ s.confirmsConfig) :
    ∃ a', Moves n a a' ∧ NodeSim cc a' n (s.proposeConfigChange server add).1 := by
  rw [Node.proposeConfigChange]
  cases hnc : s.proposedConfig server add with
  | none => exact ⟨a, Moves.refl n a, h⟩
  | some nc =>
    rw [hnc] at hcondition
    obtain ⟨htop, hpos, hterm, hquorum⟩ := hcondition rfl
    obtain ⟨hrole, hcommitted, hmeet⟩ := proposedConfig_eq_some hnc
    rw [← currentConfig_eq h.chain_len] at hmeet
    -- the machine hears once more that the commit index is committed, now under this configuration
    obtain ⟨hmoves, hconfirmed⟩ := h.commitTo hsound hn hrole hpos le_rfl h.commit_le hterm hquorum
    have hsound' := hmoves.sound hsound
    obtain ⟨hmoves', hproposed⟩ := hconfirmed.extendChain hsound' hrole htop hcommitted hmeet
      (.inr ⟨h.term_eq.symm, rfl, h.cfg_idx.symm⟩) (Nat.sub_add_cancel hpos).symm
    exact ⟨_, hmoves.trans hmoves', (hproposed.enqueueDurable _).broadcastConfigChange
      (hmoves'.sound hsound') hn⟩

end NodeSim

end Lockstep.Consensus.RaftA
