import Lockstep.Consensus.RaftA.Simulation
import Mathlib.Data.List.Range

/-!
# Sending, committing and compacting keep a node related to the machine

The operations handlers share: sending messages, enqueueing records, replicating to the peers,
rolling out a configuration, advancing the commit index, applying and compacting.
-/

namespace Lockstep.Consensus.RaftA

open Library TermLog Node List

variable {cc : ClusterConfig} {a : Machine} {n : NodeId} {s : Node} {m : RaftMsg}

/-! ### Counting over the cluster list -/

lemma countP_range_eq {cluster : List NodeId} (hnodup : cluster.Nodup)
    (p : NodeId → ℕ → Bool) :
    (range cluster.length).countP (fun i ↦ p (cluster.getD i 0) i) =
      cluster.countP fun v ↦ p v (cluster.idxOf v) := by
  have hcluster : cluster = (range cluster.length).map fun i ↦ cluster.getD i 0 := by
    refine ext_getElem (by simp) fun i hi _ ↦ ?_
    simp [getD_eq_getElem?_getD, getElem?_eq_getElem hi]
  conv_rhs => rw [hcluster, countP_map]
  refine countP_congr fun i hi ↦ ?_
  have hlt : i < cluster.length := mem_range.mp hi
  rw [Function.comp_apply, ← hcluster, getD_eq_getElem?_getD, getElem?_eq_getElem hlt,
    Option.getD_some, hnodup.idxOf_getElem i hlt]

namespace Node

variable {v : NodeId}

lemma idxOf_of_mem (hv : v ∈ s.cfg.cluster) : s.idxOf v = s.cfg.cluster.idxOf v :=
  if_pos hv

lemma idxOf_inj {v w : NodeId} (hv : v ∈ s.cfg.cluster) (hw : w ∈ s.cfg.cluster)
    (h : s.idxOf v = s.idxOf w) : v = w := by
  rw [idxOf_of_mem hv, idxOf_of_mem hw] at h
  exact (List.idxOf_inj hv).mp h

lemma idxOf_lt (hv : v ∈ s.cfg.cluster) : s.idxOf v < s.cfg.cluster.length := by
  rw [idxOf_of_mem hv]
  exact idxOf_lt_length_of_mem hv

lemma getD_set_idxOf {values : List ℕ} (hlen : values.length = s.cfg.cluster.length)
    {v w : NodeId} (hv : v ∈ s.cfg.cluster) (hw : w ∈ s.cfg.cluster) (x : ℕ) :
    (values.set (s.idxOf w) x).getD (s.idxOf v) 0 =
      if v = w then x else values.getD (s.idxOf v) 0 := by
  rw [getD_eq_getElem?_getD]
  by_cases heq : v = w
  · subst heq
    rw [if_pos rfl, getElem?_set_self (hlen.symm ▸ idxOf_lt hv), Option.getD_some]
  · rw [if_neg heq, getElem?_set_ne fun hidx ↦ heq (idxOf_inj hw hv hidx).symm,
      getD_eq_getElem?_getD]

/-- The count over the indices of `match_index` is a count of members. -/
lemma agreeCount_eq (hnodup : s.cfg.cluster.Nodup)
    (hlen : s.matchIndex.length = s.cfg.cluster.length) (i : ℕ) :
    s.agreeCount i = s.cfg.cluster.countP fun v ↦ s.inCurrentConfig v &&
      (decide (s.cfg.cluster.idxOf v = s.selfIdx) ||
        decide (i ≤ s.matchIndex.getD (s.cfg.cluster.idxOf v) 0)) := by
  rw [agreeCount, hlen]
  exact countP_range_eq hnodup fun v j ↦ s.inCurrentConfig v &&
    (decide (j = s.selfIdx) || decide (i ≤ s.matchIndex.getD j 0))

lemma adoptedCount_eq (hnodup : s.cfg.cluster.Nodup) (head : ℕ) :
    s.adoptedCount head = s.cfg.cluster.countP fun v ↦
      inConfig (s.cfgChain.getD head []) v &&
        (if v = s.self then decide (head ≤ s.cfgIdx)
          else decide (head ≤ s.cfgAdopted.getD (s.cfg.cluster.idxOf v) 0)) :=
  countP_range_eq hnodup fun v i ↦ inConfig (s.cfgChain.getD head []) v &&
    (if v = s.self then decide (head ≤ s.cfgIdx) else decide (head ≤ s.cfgAdopted.getD i 0))

lemma currentConfig_eq (hchain : s.cfgChain.length = s.cfgIdx + 1) :
    s.currentConfig = s.cfgChain.getD s.cfgIdx [] := by
  rw [currentConfig, if_neg]
  intro hempty
  rw [isEmpty_iff.mp hempty] at hchain
  exact absurd hchain (Nat.succ_ne_zero _).symm

lemma quorum_eq_half (hchain : s.cfgChain.length = s.cfgIdx + 1) :
    s.quorum = s.currentConfig.length / 2 + 1 := by
  rw [quorum, if_neg]
  intro hempty
  rw [isEmpty_iff.mp hempty] at hchain
  exact absurd hchain (Nat.succ_ne_zero _).symm

lemma mem_of_inCurrentConfig (h : s.inCurrentConfig v = true) : v ∈ s.currentConfig :=
  of_decide_eq_true h

end Node

/-! ### Operations that leave the machine as it is -/

namespace NodeSim

section

variable (h : NodeSim cc a n s)

include h

lemma self_eq : s.self = n := by
  rw [self, h.cfg_eq]
  rfl

lemma cluster_eq : s.cfg.cluster = cc.cluster := by
  rw [h.cfg_eq]
  rfl

lemma access {ok : Bool} (hok : ok = true) : NodeSim cc a n (s.access ok) :=
  { h with
    inBounds := by rw [Node.access, h.inBounds, hok]; rfl
    candidate := fun hrole ↦ { h.candidate hrole with }
    leader := fun hrole ↦ { h.leader hrole with } }

lemma enqueueDurable (r : DurableRecord) : NodeSim cc a n (s.enqueueDurable r) :=
  { h with
    candidate := fun hrole ↦ { h.candidate hrole with }
    leader := fun hrole ↦ { h.leader hrole with } }

lemma sendTo (hm : Justified cc a m) : NodeSim cc a n (s.sendTo m) :=
  { h with
    candidate := fun hrole ↦ { h.candidate hrole with }
    leader := fun hrole ↦ { h.leader hrole with }
    outbox := forall_mem_append.mpr
      ⟨h.outbox, forall_mem_singleton.mpr (hm.stamp s.clusterToken)⟩ }

lemma persistMeta : NodeSim cc a n s.persistMeta :=
  (h.enqueueDurable _).enqueueDurable _

lemma length_committed : (s.logView.take s.commitIndex).length = s.commitIndex :=
  length_take_of_le (h.commit_le.trans_eq (length_logView h.snap_len).symm)

lemma base_commit : s.snapBase ≤ s.commitIndex :=
  h.base_applied.trans h.applied_le

lemma history_eq (hsound : Sound a) (hrole : s.role = .leader) :
    a.history s.currentTerm = s.logView := by
  have hleads := (h.leader hrole).leads
  rw [← h.term_eq] at hleads ⊢
  rw [← hsound.inv.leader_log n hleads, h.log_eq]

lemma snapState_committed : CommittedPrefix a s.currentTerm s.snapState := by
  refine h.committed.mono ?_ le_rfl
  rw [logView, prefix_take_iff]
  exact ⟨prefix_append _ _, h.snap_len.trans_le h.base_commit⟩

lemma foldl_leader (hrole : s.role = .leader) (dests : List NodeId) (f : Node → NodeId → Node)
    (hf : ∀ t d, d ∈ dests → NodeSim cc a n t → t.role = .leader →
      NodeSim cc a n (f t d) ∧ (f t d).role = .leader) :
    NodeSim cc a n (dests.foldl f s) ∧ (dests.foldl f s).role = .leader :=
  foldlRecOn (motive := fun t ↦ NodeSim cc a n t ∧ t.role = .leader) dests f ⟨h, hrole⟩
    fun t ht d hd ↦ hf t d hd ht.1 ht.2

lemma mem_cluster_of_peers {d : NodeId} (hd : d ∈ s.peers) : d ∈ cc.cluster := by
  rw [← h.cluster_eq]
  exact (mem_filter.mp hd).1

end

section Leader

variable (hsound : Sound a) (hn : n ∈ cc.cluster)
include hsound hn

lemma sendInstallSnapshot (h : NodeSim cc a n s) (hrole : s.role = .leader) (dest : NodeId) :
    NodeSim cc a n (s.sendInstallSnapshot dest) := by
  refine h.sendTo ⟨h.self_eq.symm ▸ hn, ?_⟩
  exact
    { leads := h.self_eq.symm ▸ (h.leader hrole).leads
      length_eq := h.snap_len
      history := by
        rw [h.history_eq hsound hrole]
        exact prefix_append _ _
      committed := h.snapState_committed }

omit hn in
lemma appendOk (h : NodeSim cc a n s) (hrole : s.role = .leader) (dest : NodeId)
    {prevIndex : ℕ} (hprev : prevIndex ≤ s.llen) :
    AppendOk a
      { type := .appendEntries, term := s.currentTerm, source := s.self, dest := dest
        prevLogIndex := prevIndex, prevLogTerm := s.termAt prevIndex
        leaderCommit := s.commitIndex, entries := (s.batchIndices prevIndex).map s.entryAt } := by
  have hhistory := h.history_eq hsound hrole
  have hlen := length_logView h.snap_len
  have hbatch := map_entryAt_batchIndices h.snap_len prevIndex
  refine
    { leads := h.self_eq.symm ▸ (h.leader hrole).leads, length_le := ?_, slice := ?_
      prev := ?_, commit_le := ?_, committed := ?_ }
  · dsimp only
    rw [hbatch, hhistory, length_take, length_drop, hlen]
    omega
  · dsimp only
    rw [hbatch, hhistory, length_take, ← take_eq_take_min]
  · intro hpos
    refine ⟨s.entryAt prevIndex, ?_, ?_⟩
    · rw [hhistory]
      exact logView_getElem? h.snap_len hpos hprev
    · exact (termAt_of_getElem? h.snap_len hpos
        (logView_getElem? h.snap_len hpos hprev)).symm
  · dsimp only
    rw [hhistory, hlen]
    exact h.commit_le
  · dsimp only
    rw [hhistory]
    exact h.committed

/-- What is sent to a peer is justified by the machine. -/
lemma replicateTo (h : NodeSim cc a n s) (hrole : s.role = .leader) {dest : NodeId}
    (hdest : dest ∈ cc.cluster) :
    NodeSim cc a n (s.replicateTo dest) ∧ (s.replicateTo dest).role = .leader := by
  have hnext := (h.leader hrole).next dest hdest
  rw [Node.replicateTo]
  dsimp only
  split_ifs with hbase
  · exact ⟨h.sendInstallSnapshot hsound hn hrole dest, hrole⟩
  refine ⟨?_, hrole⟩
  generalize hprev : max (s.nextIndex.getD (s.idxOf dest) 0) 1 - 1 = prevIndex at hbase ⊢
  have hbounds : (s.termInBounds prevIndex &&
      (s.batchIndices prevIndex).all s.entryInBounds) = true := by
    rw [termInBounds_eq_true h.snap_len, batchIndices_inBounds h.snap_len]
    rfl
  have haccess := h.access hbounds
  refine NodeSim.sendTo ?_ ⟨h.self_eq.symm ▸ hn, h.appendOk hsound hrole dest (by omega)⟩
  exact
    { haccess with
      candidate := fun hrole ↦ { haccess.candidate hrole with }
      leader := fun hrole ↦ { haccess.leader hrole with } }

lemma broadcastAppend (h : NodeSim cc a n s) : NodeSim cc a n s.broadcastAppend := by
  rw [Node.broadcastAppend]
  split_ifs with hrole
  · exact h
  · exact (h.foldl_leader (not_not.mp hrole) _ _ fun t d hd ht htrole ↦
      ht.replicateTo hsound hn htrole (h.mem_cluster_of_peers hd)).1

lemma sendConfigChangeTo (h : NodeSim cc a n s) (dest : NodeId) :
    NodeSim cc a n (s.sendConfigChangeTo dest) := by
  refine h.sendTo ⟨h.self_eq.symm ▸ hn, ?_⟩
  exact
    { top := h.cfg_idx ▸ hsound.inv.cfg_top n
      members := by rw [← currentConfig_eq h.chain_len]; exact h.quorum_eq
      proposed := fun hpos ↦ by
        have hle := hsound.chain.cfg_term n s.cfgIdx hpos h.cfg_idx.ge
        rwa [h.term_eq] at hle }

lemma broadcastConfigChange (h : NodeSim cc a n s) :
    NodeSim cc a n s.broadcastConfigChange := by
  rw [Node.broadcastConfigChange]
  by_cases hstop : s.role ≠ .leader ∨ s.cfgChain.isEmpty = true
  · rwa [if_pos hstop]
  rw [if_neg hstop]
  have hrole : s.role = .leader := by
    by_contra hrole
    exact hstop (.inl hrole)
  exact (h.foldl_leader hrole _ _ fun t d _ ht htrole ↦
    ⟨ht.sendConfigChangeTo hsound hn d, htrole⟩).1

end Leader

end NodeSim

end Lockstep.Consensus.RaftA
