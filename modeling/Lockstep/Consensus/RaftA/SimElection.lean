import Lockstep.Consensus.RaftA.SimCommit

/-!
# Terms, votes and elections keep a node related to the machine

Stepping down bumps the node's term, standing for election is the machine's `stand`, a granted vote
is its `grant`, and a candidate with a quorum of its configuration becomes leader by `elect`. That
its term has no leader yet is `TermLog.unique_winner`.
-/

namespace Lockstep.Consensus.RaftA

open Library TermLog Node Moves List

variable {cc : ClusterConfig} {a : Machine} {n : NodeId} {s : Node} {m : RaftMsg}

lemma ClusterConfig.ne_kNil {id : NodeId} (hid : id ∈ cc.cluster) : id ≠ kNil :=
  fun h ↦ cc.nil_notMem (h ▸ hid)

lemma getD_map_const_le (values : List ℕ) (x i : ℕ) : (values.map fun _ ↦ x).getD i 0 ≤ x := by
  rw [getD_eq_getElem?_getD, getElem?_map]
  cases values[i]? with
  | none => exact Nat.zero_le x
  | some _ => exact le_rfl

namespace NodeSim

section

variable (h : NodeSim cc a n s)

include h

lemma toFollower (hint : NodeId) :
    NodeSim cc a n { s with role := .follower, leaderHint := hint } :=
  { h with
    candidate := fun hrole ↦ by cases hrole
    leader := fun hrole ↦ by cases hrole }

lemma maybeStepDown (hsound : Sound a) (term : ℕ) :
    ∃ a', Moves n a a' ∧ NodeSim cc a' n (s.maybeStepDown term) := by
  rw [Node.maybeStepDown]
  split_ifs with hlt
  · have hterm : a.term n < term := h.term_eq.trans_lt hlt
    have hmoves : Moves n a (a.bump n term) := bump hterm
    refine ⟨_, hmoves, NodeSim.persistMeta ?_⟩
    exact
      { h with
        term_eq := a.bump_term_self n term
        vote_eq := by
          rw [if_pos rfl]
          exact hsound.inv.vote_eq_none hterm
        committed := (h.committed.extends hsound.chain hmoves.ext).mono prefix_rfl hlt.le
        candidate := fun hrole ↦ by cases hrole
        leader := fun hrole ↦ by cases hrole
        outbox := fun msg hmsg ↦ (h.outbox msg hmsg).extends hsound hmoves.ext }
  · exact ⟨a, refl n a, h⟩

/-- Standing for election is the machine's `stand`. -/
lemma standForElection (hsound : Sound a) (hn : n ∈ cc.cluster) :
    Moves n a (a.stand n (s.currentTerm + 1)) ∧
      NodeSim cc (a.stand n (s.currentTerm + 1)) n s.standForElection := by
  have hterm : a.term n < s.currentTerm + 1 := h.term_eq.trans_lt (Nat.lt_succ_self _)
  have hmoves : Moves n a (a.stand n (s.currentTerm + 1)) := stand hsound.inv hterm
  have hvote : (a.stand n (s.currentTerm + 1)).vote n (s.currentTerm + 1) = some n :=
    update₂_self _ _ _ _
  refine ⟨hmoves, NodeSim.persistMeta ?_⟩
  exact
    { h with
      term_eq := a.stand_term_self n _
      vote_eq := by
        dsimp only
        rw [h.self_eq, if_neg (ClusterConfig.ne_kNil hn), hvote]
      committed :=
        (h.committed.extends hsound.chain hmoves.ext).mono prefix_rfl (Nat.le_succ _)
      candidate := fun _ ↦
        { stood := (update₂_self _ _ _ _).trans (congrArg some h.log_eq)
          cfg := (update₂_self _ _ _ _).trans h.cfg_idx
          notLeader := fun hleader ↦
            absurd (hsound.inv.leader_le (t := s.currentTerm + 1) hleader) (not_le.mpr hterm)
          nodup := nodup_singleton _
          votes := by
            intro v hv
            rw [mem_singleton.mp hv, h.self_eq]
            exact hvote }
      leader := fun hrole ↦ by cases hrole
      outbox := fun msg hmsg ↦ (h.outbox msg hmsg).extends hsound hmoves.ext }

lemma votes_quorum (hrole : s.role = .candidate) (hquorum : s.quorum ≤ s.configVotes) :
    ∃ Q ∈ a.quorum (a.stoodCfg n s.currentTerm), ∀ v ∈ Q, a.vote v s.currentTerm = some n := by
  have hcand := h.candidate hrole
  rw [quorum_eq_half h.chain_len, configVotes] at hquorum
  rw [hcand.cfg, h.quorum_eq]
  exact ⟨_, mem_majorities_of_countP hcand.nodup hquorum fun v _ hv ↦
    mem_of_inCurrentConfig hv, fun v hv ↦ hcand.votes v hv.1⟩

lemma leader_eq_none (hsound : Sound a) (hrole : s.role = .candidate)
    {Q : Set NodeId} (hQ : Q ∈ a.quorum (a.stoodCfg n s.currentTerm))
    (hvotes : ∀ v ∈ Q, a.vote v s.currentTerm = some n) : a.leader s.currentTerm = none := by
  by_contra hsome
  obtain ⟨d, hd⟩ := Option.ne_none_iff_exists'.mp hsome
  obtain ⟨R, hR, hdvotes⟩ := hsound.inv.elected _ d hd
  have heq := unique_winner hsound.inv hsound.chain (h.candidate hrole).stood
    (hsound.inv.leader_stood _ d hd) hQ hR hvotes fun v hv ↦ (hdvotes v hv).1
  exact (h.candidate hrole).notLeader (heq.symm ▸ hd)

lemma leaderSim_elect (hsound : Sound a) (hn : n ∈ cc.cluster)
    (hnone : a.leader s.currentTerm = none) :
    LeaderSim cc (a.elect n) n s.leaderStart := by
  have hterm := h.term_eq
  have hlen : (a.log n).length = s.llen := by
    rw [h.log_eq, length_logView h.snap_len]
  have hacked : (a.elect n).acked n s.currentTerm = s.llen := by
    rw [← hterm, ← hlen]
    exact update₂_self _ _ _ _
  refine
    { leads := ?_, self_acked := hacked.ge, matched := ?_, next := ?_, adopted := ?_
      declared := ?_, settled := ?_ }
  · change (a.elect n).leader s.currentTerm = some n
    rw [← hterm]
    exact a.elect_leader_self n
  · intro v hv
    have hmatch : (s.matchIndex.map fun _ ↦ 0).length = s.cfg.cluster.length := by
      rw [length_map, h.match_len, h.cluster_eq]
    change ((s.matchIndex.map fun _ ↦ 0).set (s.idxOf s.self) s.llen).getD (s.idxOf v) 0 ≤ _
    rw [getD_set_idxOf hmatch (h.cluster_eq.symm ▸ hv)
      (h.self_eq.symm ▸ h.cluster_eq.symm ▸ hn)]
    split_ifs with hself
    · rw [hself, h.self_eq]
      exact hacked.ge
    · exact (getD_map_const_le _ 0 _).trans (Nat.zero_le _)
  · intro v _
    exact getD_map_const_le s.nextIndex (s.llen + 1) (s.idxOf v)
  · intro v _
    have hzero : (replicate s.cfg.cluster.length 0).getD (s.idxOf v) 0 = 0 := by
      simp only [getD_eq_getElem?_getD, getElem?_replicate]
      split_ifs <;> rfl
    refine Enrolled.mono ⟨Nat.zero_le _, fun u c _ _ ↦ Nat.zero_le _⟩ hzero.le
  · intro i k hcommitted
    exact absurd hnone (committed_leader_ne_none hsound.inv hsound.chain hcommitted)
  · intro hcommitted hpos
    change (if 0 < s.cfgIdx then s.cfgIdx - 1 else 0) = s.cfgIdx at hcommitted
    change 0 < s.cfgIdx at hpos
    rw [if_pos hpos] at hcommitted
    omega

/-- Winning is its `elect`. -/
lemma becomeLeader (hsound : Sound a) (hn : n ∈ cc.cluster)
    (hrole : s.role = .candidate) (hquorum : s.quorum ≤ s.configVotes) :
    ∃ a', Moves n a a' ∧ NodeSim cc a' n s.becomeLeader := by
  obtain ⟨Q, hQ, hvotes⟩ := h.votes_quorum hrole hquorum
  have hnone := h.leader_eq_none hsound hrole hQ hvotes
  have hmoves : Moves n a (a.elect n) := by
    have hstood := (h.candidate hrole).stood
    rw [← h.log_eq] at hstood
    rw [← h.term_eq] at hnone hstood hQ hvotes
    exact elect hsound.inv hnone hstood hQ hvotes
  have hsound' := hmoves.sound hsound
  refine ⟨_, hmoves, ?_⟩
  have helected : NodeSim cc (a.elect n) n s.leaderStart :=
    { h with
      committed := h.committed.extends hsound.chain hmoves.ext
      next_len := (length_map _).trans h.next_len
      match_len := by
        change ((s.matchIndex.map fun _ ↦ 0).set _ _).length = _
        rw [length_set, length_map, h.match_len]
      adopted_len := by
        change (replicate s.cfg.cluster.length 0).length = _
        rw [length_replicate, h.cluster_eq]
      candidate := fun hrole ↦ by cases hrole
      leader := fun _ ↦ h.leaderSim_elect hsound hn hnone
      outbox := fun msg hmsg ↦ (h.outbox msg hmsg).extends hsound hmoves.ext }
  have hbroadcast := helected.broadcastAppend hsound' hn
  rw [Node.becomeLeader]
  refine NodeSim.maybeCommitConfig ?_ hsound'
  split_ifs
  · exact hbroadcast.broadcastConfigChange hsound' hn
  · exact hbroadcast

lemma voteRequest_justified (hn : n ∈ cc.cluster)
    (hrole : s.role = .candidate) (dest : NodeId) : Justified cc a (s.voteRequest dest) := by
  have hcand := h.candidate hrole
  rw [← h.self_eq] at hcand hn
  exact ⟨hn, s.logView, hcand.stood, length_logView h.snap_len,
    (lastLogTerm_eq h.snap_len).symm, hcand.cfg⟩

lemma sendVoteRequests {request : NodeId → RaftMsg}
    (hrequest : ∀ d, Justified cc a (request d)) (dests : List NodeId) :
    NodeSim cc a n (dests.foldl (fun t d ↦ t.sendTo (request d)) s) :=
  foldlRecOn dests _ h fun _ ht d _ ↦ ht.sendTo (hrequest d)

lemma onElectionTimeout (hsound : Sound a) (hn : n ∈ cc.cluster) :
    ∃ a', Moves n a a' ∧ NodeSim cc a' n s.onElectionTimeout := by
  rw [Node.onElectionTimeout]
  split_ifs
  · exact ⟨a, refl n a, h⟩
  · exact ⟨a, refl n a, h⟩
  · exact ⟨a, refl n a, h⟩
  · obtain ⟨hmoves, hstand⟩ := h.standForElection hsound hn
    have hsound' := hmoves.sound hsound
    extract_lets candidate asked
    split_ifs with hquorum
    · obtain ⟨a', hmoves', hleader⟩ := hstand.becomeLeader hsound' hn rfl hquorum
      exact ⟨a', hmoves.trans hmoves', hleader⟩
    · have hasked : NodeSim cc _ n asked :=
        hstand.access (termInBounds_eq_true hstand.snap_len _)
      exact ⟨_, hmoves, hasked.sendVoteRequests (hasked.voteRequest_justified hn rfl) _⟩

end

/-! ### Votes -/

lemma upToDate_of_grantsVote (h : NodeSim cc a n s) {log : List LogEntry}
    (hlen : log.length = m.lastLogIndex) (hterm : lastTerm log = m.lastLogTerm)
    (hgrant : s.grantsVote m = true) : UpToDate log (a.log n) := by
  have hgrant := (of_decide_eq_true hgrant).2.1
  rw [lastLogTerm_eq h.snap_len, ← h.log_eq] at hgrant
  rw [UpToDate, hterm, hlen]
  have hllen : (a.log n).length = s.llen := by
    rw [h.log_eq, length_logView h.snap_len]
  rcases hgrant with hlt | ⟨heq, hle⟩
  · exact .inl hlt
  · exact .inr ⟨heq.symm, hllen.trans_le hle⟩

lemma castVote (h : NodeSim cc a n s) (hsound : Sound a) (hterm : m.term = s.currentTerm)
    (hsource : m.source ∈ cc.cluster) (hm : RequestVoteOk a m) (hgrant : s.grantsVote m = true)
    (hvoted : s.votedFor = kNil) :
    Moves n a (a.grant n m.source) ∧
      NodeSim cc (a.grant n m.source) n { s with votedFor := m.source } := by
  obtain ⟨log, hlog, hlen, hlast, hcfg⟩ := hm
  have hvote := h.vote_eq
  rw [if_pos hvoted] at hvote
  have hcfgle : s.cfgIdx ≤ m.cfgIndex := (of_decide_eq_true hgrant).2.2.1
  have hmoves : Moves n a (a.grant n m.source) := by
    rw [hterm, ← h.term_eq] at hlog hcfg
    rw [← h.term_eq] at hvote
    refine grant hvote hlog (h.upToDate_of_grantsVote hlen hlast hgrant) ?_
    rw [h.cfg_idx, hcfg]
    exact hcfgle
  refine ⟨hmoves, ?_⟩
  exact
    { h with
      vote_eq := by
        dsimp only
        rw [if_neg (ClusterConfig.ne_kNil hsource), ← h.term_eq]
        exact update₂_self _ _ _ _
      committed := h.committed.extends hsound.chain hmoves.ext
      candidate := fun hrole ↦
        { (h.candidate hrole).extends hmoves.ext (h.candidate hrole).notLeader with }
      leader := fun hrole ↦
        { (h.leader hrole).extends hmoves.ext (h.cfgIdx_le_top hsound)
            (h.leader hrole).declared with }
      outbox := fun msg hmsg ↦ (h.outbox msg hmsg).extends hsound hmoves.ext }

/-- A granted vote is its `grant`. -/
lemma handleRequestVote (h : NodeSim cc a n s) (hsound : Sound a) (hn : n ∈ cc.cluster)
    (hterm : m.term ≤ s.currentTerm) (hsource : m.source ∈ cc.cluster)
    (hm : RequestVoteOk a m) :
    ∃ a', Moves n a a' ∧ NodeSim cc a' n (s.handleRequestVote m) := by
  rw [Node.handleRequestVote]
  split_ifs with hstale
  · exact ⟨a, refl n a,
      h.sendTo ⟨h.self_eq.symm ▸ hn, fun hgranted ↦ by cases hgranted⟩⟩
  have hterm : m.term = s.currentTerm := by omega
  extract_lets checked grant voted
  have hchecked : NodeSim cc a n checked :=
    h.access (termInBounds_eq_true h.snap_len _)
  by_cases hcast : grant = true ∧ checked.votedFor ≠ m.source
  · have hnil : checked.votedFor = kNil :=
      (of_decide_eq_true hcast.1).1.resolve_right hcast.2
    obtain ⟨hmoves, hsim⟩ := hchecked.castVote hsound hterm hsource hm hcast.1 hnil
    have hvoted : voted = { checked with votedFor := m.source }.persistMeta := if_pos hcast
    rw [hvoted]
    refine ⟨_, hmoves, hsim.persistMeta.sendTo ⟨h.self_eq.symm ▸ hn, fun _ ↦ ?_⟩⟩
    have hvote := hsim.vote_eq
    dsimp only at hvote
    rw [if_neg (ClusterConfig.ne_kNil hsource)] at hvote
    exact h.self_eq.symm ▸ hvote
  · have hvoted : voted = checked := if_neg hcast
    rw [hvoted]
    refine ⟨a, refl n a, hchecked.sendTo ⟨h.self_eq.symm ▸ hn, fun hgranted ↦ ?_⟩⟩
    have hsame : checked.votedFor = m.source := by
      by_contra hne
      exact hcast ⟨hgranted, hne⟩
    have hvote := hchecked.vote_eq
    rw [hsame, if_neg (ClusterConfig.ne_kNil hsource)] at hvote
    exact h.self_eq.symm ▸ hvote

lemma handleVoteResponse (h : NodeSim cc a n s) (hsound : Sound a) (hn : n ∈ cc.cluster)
    (hdest : m.dest = n) (hm : m.granted = true → a.vote m.source m.term = some m.dest) :
    ∃ a', Moves n a a' ∧ NodeSim cc a' n (s.handleVoteResponse m) := by
  rw [Node.handleVoteResponse]
  split_ifs with hskip hmem
  · exact ⟨a, refl n a, h⟩
  · exact ⟨a, refl n a, h⟩
  · have hrole : s.role = .candidate := by
      by_contra hrole
      exact hskip (.inl hrole)
    have hterm : m.term = s.currentTerm := by
      by_contra hterm
      exact hskip (.inr (.inl hterm))
    have hgranted : m.granted = true := by
      by_contra hgranted
      exact hskip (.inr (.inr (by simpa using hgranted)))
    have hcand := h.candidate hrole
    extract_lets counted
    have hcounted : NodeSim cc a n counted :=
      { h with
        candidate := fun hrole ↦
          { hcand with
            nodup := hcand.nodup.append (nodup_singleton _) (disjoint_singleton.mpr hmem)
            votes := forall_mem_append.mpr ⟨hcand.votes, forall_mem_singleton.mpr (by
              rw [← hdest]
              exact hterm ▸ hm hgranted)⟩ }
        leader := fun hlead ↦ { h.leader hlead with } }
    split_ifs with hquorum
    · exact hcounted.becomeLeader hsound hn hrole hquorum
    · exact ⟨a, refl n a, hcounted⟩

end NodeSim

end Lockstep.Consensus.RaftA
