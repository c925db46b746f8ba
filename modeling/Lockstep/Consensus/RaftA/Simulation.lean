import Lockstep.Library.Majority
import Lockstep.Library.TermLogFrame
import Lockstep.Consensus.RaftA.NodeLog

/-!
# What a node and a message say about the abstract machine

The abstract machine of `Library.TermLog`, at node ids and byte-string values, is the specification
of a cluster. `NodeSim` relates one node to it: current term, vote and logical log are the
machine's, everything up to the commit index is a committed prefix, a candidate has stood with its
log and a leader leads its term, with a match index below what each peer has acknowledged.
-/

namespace Lockstep.Consensus.RaftA

open Library TermLog

/-- The abstract machine of a cluster. -/
abbrev Machine := TermLog.State NodeId Value

variable {cc : ClusterConfig} {a a' : Machine} {n : NodeId} {s : Node} {m : RaftMsg}

/-! ### Messages -/

def RequestVoteOk (a : Machine) (m : RaftMsg) : Prop :=
  ∃ log, a.stood m.source m.term = some log ∧ log.length = m.lastLogIndex ∧
    lastTerm log = m.lastLogTerm ∧ a.stoodCfg m.source m.term = m.cfgIndex

structure AppendOk (a : Machine) (m : RaftMsg) : Prop where
  leads : a.leader m.term = some m.source
  length_le : m.prevLogIndex + m.entries.length ≤ (a.history m.term).length
  slice : ((a.history m.term).drop m.prevLogIndex).take m.entries.length = m.entries
  prev : 0 < m.prevLogIndex →
    ∃ e, (a.history m.term)[m.prevLogIndex - 1]? = some e ∧ e.term = m.prevLogTerm
  commit_le : m.leaderCommit ≤ (a.history m.term).length
  committed : CommittedPrefix a m.term ((a.history m.term).take m.leaderCommit)

structure InstallOk (a : Machine) (m : RaftMsg) : Prop where
  leads : a.leader m.term = some m.source
  length_eq : m.snapState.length = m.lastIncludedIndex
  history : m.snapState <+: a.history m.term
  committed : CommittedPrefix a m.term m.snapState

structure ConfigOk (a : Machine) (m : RaftMsg) : Prop where
  top : m.configChainIndex ≤ a.top
  members : a.quorum m.configChainIndex = majorities m.configMembers
  proposed : 0 < m.configChainIndex → a.proposed m.configChainIndex ≤ m.term

def MessageOk (a : Machine) (m : RaftMsg) : Prop :=
  match m.type with
  | .requestVote => RequestVoteOk a m
  | .requestVoteResp => m.granted = true → a.vote m.source m.term = some m.dest
  | .appendEntries => AppendOk a m
  | .appendEntriesResp => m.success = true → m.matchIndex ≤ a.acked m.source m.term
  | .installSnapshot => InstallOk a m
  | .installSnapshotResp => m.matchIndex ≤ a.acked m.source m.term
  | .configChange => ConfigOk a m
  | .configChangeResp => Enrolled a m.source m.term m.configChainIndex

def Justified (cc : ClusterConfig) (a : Machine) (m : RaftMsg) : Prop :=
  m.source ∈ cc.cluster ∧ MessageOk a m

lemma RequestVoteOk.extends (h : RequestVoteOk a m) (hext : Extends a a') :
    RequestVoteOk a' m := by
  obtain ⟨log, hlog, hlen, hterm, hcfg⟩ := h
  exact ⟨log, hext.stood _ _ log hlog, hlen, hterm, (hext.stoodCfg _ _ log hlog).trans hcfg⟩

lemma AppendOk.extends (h : AppendOk a m) (hsound : Sound a) (hext : Extends a a') :
    AppendOk a' m where
  leads := hext.leader _ _ h.leads
  length_le := h.length_le.trans (hext.history m.term).length_le
  slice := by
    obtain ⟨rest, hrest⟩ := hext.history m.term
    have hlen := h.length_le
    rw [← hrest, List.drop_append_of_le_length (by omega),
      List.take_append_of_le_length (by rw [List.length_drop]; omega)]
    exact h.slice
  prev := by
    intro hpos
    obtain ⟨e, he, hterm⟩ := h.prev hpos
    exact ⟨e, prefix_getElem? (hext.history m.term) he, hterm⟩
  commit_le := h.commit_le.trans (hext.history m.term).length_le
  committed := by
    rw [hext.history_take h.commit_le]
    exact h.committed.extends hsound.chain hext

lemma InstallOk.extends (h : InstallOk a m) (hsound : Sound a) (hext : Extends a a') :
    InstallOk a' m where
  leads := hext.leader _ _ h.leads
  length_eq := h.length_eq
  history := h.history.trans (hext.history m.term)
  committed := h.committed.extends hsound.chain hext

lemma ConfigOk.extends (h : ConfigOk a m) (hext : Extends a a') : ConfigOk a' m where
  top := h.top.trans hext.top
  members := (hext.quorum _ h.top).trans h.members
  proposed := fun hpos ↦ (hext.proposed _ h.top).trans_le (h.proposed hpos)

lemma MessageOk.extends (h : MessageOk a m) (hsound : Sound a) (hext : Extends a a') :
    MessageOk a' m := by
  unfold MessageOk at h ⊢
  split at h
  · exact RequestVoteOk.extends h hext
  · exact fun hgranted ↦ hext.vote _ _ _ (h hgranted)
  · exact AppendOk.extends h hsound hext
  · exact fun hsuccess ↦ (h hsuccess).trans (hext.acked _ _)
  · exact InstallOk.extends h hsound hext
  · exact h.trans (hext.acked _ _)
  · exact ConfigOk.extends h hext
  · exact hext.enrolled _ _ _ h

lemma Justified.extends (h : Justified cc a m) (hsound : Sound a) (hext : Extends a a') :
    Justified cc a' m :=
  ⟨h.1, h.2.extends hsound hext⟩

lemma Justified.stamp (h : Justified cc a m) (token : ℕ) :
    Justified cc a { m with clusterToken := token } := by
  obtain ⟨hsource, hok⟩ := h
  refine ⟨hsource, ?_⟩
  unfold MessageOk at hok ⊢
  dsimp only
  split at hok
  · exact hok
  · exact hok
  · exact { hok with }
  · exact hok
  · exact { hok with }
  · exact hok
  · exact { hok with }
  · exact hok

/-- A candidate has stood with its log and configuration, and its votes were cast for it. -/
structure CandidateSim (a : Machine) (n : NodeId) (s : Node) : Prop where
  stood : a.stood n s.currentTerm = some s.logView
  cfg : a.stoodCfg n s.currentTerm = s.cfgIdx
  notLeader : a.leader s.currentTerm ≠ some n
  nodup : s.votesGranted.Nodup
  votes : ∀ v ∈ s.votesGranted, a.vote v s.currentTerm = some n

structure LeaderSim (cc : ClusterConfig) (a : Machine) (n : NodeId) (s : Node) : Prop where
  leads : a.leader s.currentTerm = some n
  self_acked : s.llen ≤ a.acked n s.currentTerm
  matched : ∀ v ∈ cc.cluster, s.matchIndex.getD (s.idxOf v) 0 ≤ a.acked v s.currentTerm
  next : ∀ v ∈ cc.cluster, s.nextIndex.getD (s.idxOf v) 0 ≤ s.llen + 1
  adopted : ∀ v ∈ cc.cluster, Enrolled a v s.currentTerm (s.cfgAdopted.getD (s.idxOf v) 0)
  declared : ∀ i k, a.committed s.currentTerm i k → i < s.commitIndex
  settled : s.cfgCommittedIdx = s.cfgIdx → 0 < s.cfgIdx →
    ∃ Q ∈ a.quorum s.cfgIdx, ∀ v ∈ Q, Enrolled a v s.currentTerm s.cfgIdx

structure NodeSim (cc : ClusterConfig) (a : Machine) (n : NodeId) (s : Node) : Prop where
  cfg_eq : s.cfg = cc.nodeConfig n
  term_eq : a.term n = s.currentTerm
  log_eq : a.log n = s.logView
  vote_eq : a.vote n s.currentTerm = if s.votedFor = kNil then none else some s.votedFor
  snap_len : s.snapState.length = s.snapBase
  persisted : s.snapPersistedBase = s.snapBase
  base_applied : s.snapBase ≤ s.appliedIndex
  applied_le : s.appliedIndex ≤ s.commitIndex
  commit_le : s.commitIndex ≤ s.llen
  committed : CommittedPrefix a s.currentTerm (s.logView.take s.commitIndex)
  repair : s.repairWatermark = 0
  inBounds : s.outOfBounds = false
  next_len : s.nextIndex.length = cc.cluster.length
  match_len : s.matchIndex.length = cc.cluster.length
  adopted_len : s.cfgAdopted.length = cc.cluster.length
  chain_len : s.cfgChain.length = s.cfgIdx + 1
  cfg_idx : a.cfg n = s.cfgIdx
  quorum_eq : a.quorum s.cfgIdx = majorities s.currentConfig
  candidate : s.role = .candidate → CandidateSim a n s
  leader : s.role = .leader → LeaderSim cc a n s
  outbox : ∀ m ∈ s.outbox, Justified cc a m

lemma CandidateSim.extends (h : CandidateSim a n s) (hext : Extends a a')
    (hleader : a'.leader s.currentTerm ≠ some n) : CandidateSim a' n s where
  stood := hext.stood _ _ _ h.stood
  cfg := (hext.stoodCfg _ _ _ h.stood).trans h.cfg
  notLeader := hleader
  nodup := h.nodup
  votes := fun v hv ↦ hext.vote _ _ _ (h.votes v hv)

lemma LeaderSim.extends (h : LeaderSim cc a n s) (hext : Extends a a') (htop : s.cfgIdx ≤ a.top)
    (hdeclared : ∀ i k, a'.committed s.currentTerm i k → i < s.commitIndex) :
    LeaderSim cc a' n s where
  leads := hext.leader _ _ h.leads
  self_acked := h.self_acked.trans (hext.acked _ _)
  matched := fun v hv ↦ (h.matched v hv).trans (hext.acked _ _)
  next := h.next
  adopted := fun v hv ↦ hext.enrolled _ _ _ (h.adopted v hv)
  declared := hdeclared
  settled := by
    intro hcommitted hpos
    obtain ⟨Q, hQ, henrolled⟩ := h.settled hcommitted hpos
    exact ⟨Q, (hext.quorum _ htop).symm ▸ hQ,
      fun v hv ↦ hext.enrolled _ _ _ (henrolled v hv)⟩

lemma NodeSim.cfgIdx_le_top (h : NodeSim cc a n s) (hsound : Sound a) : s.cfgIdx ≤ a.top :=
  h.cfg_idx ▸ hsound.inv.cfg_top n

lemma NodeSim.frame (h : NodeSim cc a n s) (hsound : Sound a) {mover : NodeId}
    (hmoves : Moves mover a a') (hne : n ≠ mover) : NodeSim cc a' n s := by
  have htop := h.cfgIdx_le_top hsound
  have hdeclared : s.role = .leader →
      ∀ i k, a'.committed s.currentTerm i k → i < s.commitIndex := by
    intro hrole i k hcommitted
    have hleads := (h.leader hrole).leads
    rcases hmoves.committed _ i k hcommitted with hold | hleader
    · exact (h.leader hrole).declared i k hold
    · rw [hmoves.ext.leader _ _ hleads] at hleader
      exact absurd (Option.some.inj hleader) hne
  exact
    { h with
      term_eq := (hmoves.term n hne).trans h.term_eq
      log_eq := (hmoves.log n hne).trans h.log_eq
      vote_eq := (hmoves.vote n hne _).trans h.vote_eq
      committed := h.committed.extends hsound.chain hmoves.ext
      cfg_idx := (hmoves.cfg n hne).trans h.cfg_idx
      quorum_eq := (hmoves.ext.quorum _ htop).trans h.quorum_eq
      candidate := fun hrole ↦ (h.candidate hrole).extends hmoves.ext fun hleader ↦
        (h.candidate hrole).notLeader (hmoves.leader n hne _ hleader)
      leader := fun hrole ↦ (h.leader hrole).extends hmoves.ext htop (hdeclared hrole)
      outbox := fun m hm ↦ (h.outbox m hm).extends hsound hmoves.ext }

end Lockstep.Consensus.RaftA
