import Lockstep.Consensus.RaftA.NodeLog
import Lockstep.Consensus.RaftA.Persistence

/-!
# The calls of a node, as changes of what it persists

Every call and handler of a node is a sequence of elementary changes of its core
(`Node.evolves_submit`, `Node.evolves_receive`, `Node.evolves_timerTick` and so on).
-/

namespace Lockstep.Consensus.RaftA

open Relation CoreStep List

variable {s : Node} {m : RaftMsg}

def RaftMsg.Whole (m : RaftMsg) : Prop :=
  m.type = .installSnapshot → m.snapState.length = m.lastIncludedIndex

instance : Decidable m.Whole := inferInstanceAs (Decidable (_ → _))

namespace Node

def SnapshotCovers (s : Node) (m : RaftMsg) : Prop :=
  s.currentTerm ≤ m.term → m.type = .installSnapshot → s.adoptsSnapshot m = true →
    s.llen ≤ m.lastIncludedIndex

def ConfigContinues (s : Node) (m : RaftMsg) : Prop :=
  s.currentTerm ≤ m.term → m.type = .configChange → s.cfgIdx < m.configChainIndex →
    m.configChainIndex = s.cfgIdx + 1

instance : Decidable (s.SnapshotCovers m) := inferInstanceAs (Decidable (_ → _ → _ → _))

instance : Decidable (s.ConfigContinues m) := inferInstanceAs (Decidable (_ → _ → _ → _))

/-! ### Calls that persist nothing -/

lemma foldl_core {f : Node → NodeId → Node} (hf : ∀ t d, (f t d).core = t.core)
    (dests : List NodeId) (s : Node) : (dests.foldl f s).core = s.core := by
  induction dests generalizing s with
  | nil => rfl
  | cons d dests ih => exact (ih (f s d)).trans (hf s d)

section

variable (s)

lemma replicateTo_core (dest : NodeId) : (s.replicateTo dest).core = s.core := by
  rw [replicateTo]
  split_ifs <;> rfl

lemma broadcastAppend_core : s.broadcastAppend.core = s.core := by
  rw [broadcastAppend]
  split_ifs
  · rfl
  · exact foldl_core replicateTo_core _ s

lemma broadcastConfigChange_core : s.broadcastConfigChange.core = s.core := by
  rw [broadcastConfigChange]
  by_cases hskip : s.role ≠ .leader ∨ s.cfgChain.isEmpty = true
  · rw [if_pos hskip]
  · rw [if_neg hskip]
    exact foldl_core (f := sendConfigChangeTo) (fun _ _ ↦ rfl) _ s

lemma maybeCommitConfig_core : s.maybeCommitConfig.core = s.core := by
  rw [maybeCommitConfig]
  extract_lets head
  split_ifs <;> rfl

lemma becomeLeader_core : s.becomeLeader.core = s.core := by
  rw [becomeLeader, maybeCommitConfig_core]
  split_ifs
  · rw [broadcastConfigChange_core, broadcastAppend_core]
    rfl
  · rw [broadcastAppend_core]
    rfl

lemma handleVoteResponse_core (m : RaftMsg) : (s.handleVoteResponse m).core = s.core := by
  rw [handleVoteResponse]
  extract_lets counted
  split_ifs
  · rfl
  · rfl
  · exact counted.becomeLeader_core
  · rfl

lemma handleInstallSnapshotResp_core (m : RaftMsg) :
    (s.handleInstallSnapshotResp m).core = s.core := by
  rw [handleInstallSnapshotResp]
  extract_lets di noted
  split_ifs
  · rfl
  · exact noted.replicateTo_core m.source

lemma handleConfigChangeResp_core (m : RaftMsg) : (s.handleConfigChangeResp m).core = s.core := by
  rw [handleConfigChangeResp]
  split_ifs
  · rfl
  · exact maybeCommitConfig_core _

lemma flushPending_core : s.flushPending.core = s.core := by
  rw [flushPending]
  split_ifs
  · exact broadcastAppend_core _
  · rfl

lemma leaderTick_core (heartbeatDue : Bool) : (s.leaderTick heartbeatDue).core = s.core := by
  rw [leaderTick]
  extract_lets beaten
  split_ifs
  · rw [broadcastConfigChange_core, broadcastAppend_core, flushPending_core]
  · rw [broadcastAppend_core, flushPending_core]
  · exact s.flushPending_core

lemma enqueueDurable_core (r : DurableRecord) :
    (s.enqueueDurable r).core = { s.core with stream := s.core.stream ++ [r] } := by
  simp [core, enqueueDurable]

lemma persistMeta_core : s.persistMeta.core = { s.core with
      stream := s.core.stream ++
        [.recMeta s.currentTerm s.votedFor, .recMeta s.currentTerm s.votedFor] } := by
  rw [persistMeta, enqueueDurable_core, enqueueDurable_core]
  simp

lemma evolves_maybeStepDown (term : ℕ) : s.core.Evolves (s.maybeStepDown term).core := by
  rw [maybeStepDown]
  split_ifs with hlt
  · rw [persistMeta_core]
    refine .single (ballot s.core term kNil ?_)
    rw [ballotRank, ballotRank, if_pos rfl]
    split_ifs <;> exact (by change 2 * s.currentTerm + _ < _; omega)
  · exact .refl

lemma evolves_standForElection : s.core.Evolves s.standForElection.core := by
  rw [standForElection, persistMeta_core]
  refine .single (ballot s.core (s.currentTerm + 1) s.self ?_)
  rw [ballotRank, ballotRank]
  split_ifs <;> exact (by change 2 * s.currentTerm + _ < _; omega)

lemma evolves_onElectionTimeout : s.core.Evolves s.onElectionTimeout.core := by
  rw [onElectionTimeout]
  extract_lets candidate asked
  split_ifs
  · exact .refl
  · exact .refl
  · exact .refl
  · rw [becomeLeader_core]
    exact s.evolves_standForElection
  · have hask : ∀ t d, (Node.sendTo t (asked.voteRequest d)).core = t.core := fun _ _ ↦ rfl
    rw [foldl_core hask]
    exact s.evolves_standForElection

lemma evolves_handleRequestVote (m : RaftMsg) : s.core.Evolves (s.handleRequestVote m).core := by
  rw [handleRequestVote]
  extract_lets checked grant voted
  split_ifs
  · exact .refl
  change s.core.Evolves voted.core
  by_cases hcast : grant = true ∧ checked.votedFor ≠ m.source
  · rw [show voted = _ from if_pos hcast, persistMeta_core]
    refine .single (ballot s.core s.currentTerm m.source ?_)
    have hnil : s.votedFor = kNil := (of_decide_eq_true hcast.1).1.resolve_right hcast.2
    have hsource : m.source ≠ kNil := fun heq ↦ hcast.2 (hnil.trans heq.symm)
    change ballotRank s.currentTerm s.votedFor < _
    rw [ballotRank, ballotRank, if_pos hnil, if_neg hsource]
    omega
  · rw [show voted = _ from if_neg hcast]
    exact .refl

lemma appendEntry_core (e : LogEntry) :
    ((s.appendEntry e).persistEntry (s.appendEntry e).llen e).core = { s.core with
      log := s.log ++ [e]
      stream := s.core.stream ++ [.recEntry (s.core.llen + 1) e] } := by
  have hlen : (s.appendEntry e).llen = s.core.llen + 1 := by
    rw [llen, appendEntry, length_append, length_singleton, Core.llen, Nat.add_assoc]
    rfl
  rw [persistEntry, enqueueDurable_core, hlen]
  rfl

lemma evolves_appendAll (entries : List LogEntry) :
    s.core.Evolves (s.appendAll entries).core := by
  induction entries generalizing s with
  | nil => exact .refl
  | cons e entries ih =>
    have hstep := append s.core e
    have hrest := ih ((s.appendEntry e).persistEntry (s.appendEntry e).llen e)
    rw [appendEntry_core] at hrest
    exact .head hstep hrest

lemma evolves_truncate {newLen : ℕ} (hbase : s.snapBase ≤ newLen) (hlen : newLen ≤ s.llen) :
    s.core.Evolves ((s.truncateTo newLen).persistTrunc newLen).core := by
  have hstep := truncate s.core newLen hbase hlen
  rw [persistTrunc, enqueueDurable_core, truncateTo, Nat.max_eq_left hbase]
  exact .single hstep

lemma evolves_mergeEntries : s.core.Evolves (s.mergeEntries m).core := by
  rw [mergeEntries]
  extract_lets keep cut incomingLast
  split_ifs with hconflict
  · obtain ⟨j, e, hj, -, hbase, hlen, -, -⟩ := firstConflict_ne_zero hconflict
    have hkeep : keep = m.prevLogIndex + (1 + j) - 1 := by rw [← hj]
    have hcut : s.core.Evolves cut.core := by
      rw [show cut = _ from if_pos (show keep < s.llen by omega)]
      exact s.evolves_truncate (by omega) (by omega)
    exact hcut.trans (cut.evolves_appendAll _)
  · exact s.evolves_appendAll _
  · exact .refl

end

/-- A commit index inside the log is adopted, the entries up to it are applied, and the log is
compacted when it has grown above the threshold. What was applied before is at most the threshold
above the snapshot, so a log above the threshold holds all of it. -/
theorem evolves_commitTo (h : s.core.Compacted) {c : ℕ} (hc : c ≤ s.llen ∨ c ≤ s.appliedIndex) :
    s.core.Evolves (applyAndMaybeSnapshot { s with commitIndex := c }).core := by
  have happlied : s.appliedIndex ≤ s.snapBase + s.cfg.snapshotThreshold := h.applied_le
  rw [applyAndMaybeSnapshot_eq]
  by_cases htake : s.snapBase < max s.appliedIndex c ∧ s.cfg.snapshotThreshold < s.log.length
  · have hle : max s.appliedIndex c ≤ s.llen := by
      rw [llen] at hc ⊢
      omega
    have hcompact := compact s.core c htake.1 hle
    rw [if_pos htake, takeSnapshot_eq
      (s := { s with commitIndex := c, appliedIndex := max s.appliedIndex c })
      h.state_len h.persisted htake.1 hle]
    simp only [core, append_assoc] at hcompact ⊢
    exact .single hcompact
  · rw [if_neg htake]
    refine .single (apply s.core c ?_)
    change max s.appliedIndex c ≤ s.snapBase + s.cfg.snapshotThreshold
    rw [llen] at hc
    omega

lemma evolves_advanceAndApply (h : s.core.Compacted) :
    s.core.Evolves s.advanceCommitIndex.applyAndMaybeSnapshot.core := by
  have hsame : s.core.Evolves s.applyAndMaybeSnapshot.core :=
    evolves_commitTo h (.inr h.commit_le)
  rw [advanceCommitIndex]
  split_ifs
  · exact hsame
  rcases advanceFrom_eq h.state_len s.llen with heq | ⟨c, -, hle, -, -, heq⟩
  · rw [heq]
    exact hsame
  · rw [heq]
    exact evolves_commitTo h (.inl hle)

lemma evolves_advanceN1SelfCommit (h : s.core.Compacted) :
    s.core.Evolves s.advanceN1SelfCommit.core := by
  rw [advanceN1SelfCommit]
  split_ifs
  · exact .refl
  · exact evolves_advanceAndApply h

lemma evolves_syncRecords (h : s.core.Compacted) (count : ℕ) :
    s.core.Evolves (s.syncRecords count).core := by
  have hcore : { s with
      disk := s.disk ++ s.writeQueue.take count
      writeQueue := s.writeQueue.drop count }.core = s.core := by
    simp [core, take_append_drop]
  rw [syncRecords, ← hcore]
  exact evolves_advanceN1SelfCommit (hcore.symm ▸ h)

/-! ### Replication -/

lemma clearRepair_core (s : Node) : s.clearRepair.core = s.core := by
  rw [clearRepair]
  split_ifs <;> rfl

lemma adoptCommit_eq (s : Node) (m : RaftMsg) : ∃ c,
    (c ≤ m.prevLogIndex + m.entries.length ∨ c = s.commitIndex) ∧
      s.adoptCommit m = { s with commitIndex := c } := by
  rw [adoptCommit]
  split_ifs with hcommit hlt hlt
  · exact ⟨m.leaderCommit, .inl hcommit.le, rfl⟩
  · exact ⟨s.commitIndex, .inr rfl, rfl⟩
  · exact ⟨_, .inl le_rfl, rfl⟩
  · exact ⟨s.commitIndex, .inr rfl, rfl⟩

lemma le_llen_mergeEntries (hsnap : s.snapState.length = s.snapBase)
    (hprev : m.prevLogIndex ≤ s.llen) :
    m.prevLogIndex + m.entries.length ≤ (s.mergeEntries m).llen := by
  have hview := length_logView hsnap
  have hmerged : (s.mergeEntries m).snapState.length = (s.mergeEntries m).snapBase := by
    obtain ⟨log, records, heq⟩ := s.mergeEntries_eq m
    rw [heq]
    exact hsnap
  rw [← length_logView hmerged, mergeEntries_logView hsnap]
  split_ifs with hconflict hshort
  · obtain ⟨j, e, hj, he, -, hlen, -, -⟩ := firstConflict_ne_zero hconflict
    have hjlt := (List.getElem?_eq_some_iff.mp he).1
    rw [List.length_append, List.length_take, List.length_drop, hj]
    omega
  · rw [length_append, length_drop]
    omega
  · omega

lemma evolves_handleAppendEntries (h : s.core.Compacted) (m : RaftMsg) :
    s.core.Evolves (s.handleAppendEntries m).core := by
  rw [handleAppendEntries]
  extract_lets follower checked scanned merged adopted
  split_ifs with hstale hreject
  · exact .refl
  · exact .refl
  · have hprev : m.prevLogIndex ≤ scanned.llen := by
      have hok : checked.logOk m = true := by simpa using hreject
      rcases of_decide_eq_true hok with hzero | ⟨hle, -⟩
      · exact hzero.trans_le (Nat.zero_le _)
      · exact hle
    have hmerge : s.core.Evolves merged.core :=
      clearRepair_core (scanned.mergeEntries m) ▸ scanned.evolves_mergeEntries
    have hmerged := hmerge.compacted h
    have hlen : m.prevLogIndex + m.entries.length ≤ merged.llen :=
      (le_llen_mergeEntries (s := scanned) h.state_len hprev).trans_eq
        (congrArg Core.llen (clearRepair_core _)).symm
    obtain ⟨c, hc, hcommit⟩ := merged.adoptCommit_eq m
    have hadopted : merged.core.Evolves adopted.core := by
      rw [show adopted = applyAndMaybeSnapshot _ from congrArg applyAndMaybeSnapshot hcommit]
      exact evolves_commitTo hmerged
        (hc.imp (fun hle ↦ hle.trans hlen) fun heq ↦ heq.trans_le hmerged.commit_le)
    exact hmerge.trans hadopted

lemma evolves_handleAppendEntriesResp (h : s.core.Compacted) :
    s.core.Evolves (s.handleAppendEntriesResp m).core := by
  rw [handleAppendEntriesResp]
  by_cases hskip : s.role ≠ .leader ∨ m.term ≠ s.currentTerm
  · rw [if_pos hskip]
    exact .refl
  rw [if_neg hskip]
  extract_lets di matched noted advanced backed
  have hadvanced : s.core.Evolves advanced.core := evolves_advanceAndApply (s := noted) h
  have hbacked : backed.core = s.core := by
    by_cases hback : 1 < s.nextIndex.getD di 0
    · rw [show backed = _ from if_pos hback]
      rfl
    · rw [show backed = _ from if_neg hback]
  by_cases hsuccess : m.success = true
  · rw [if_pos hsuccess]
    split_ifs
    · rw [replicateTo_core]
      exact hadvanced
    · exact hadvanced
  · rw [if_neg hsuccess, replicateTo_core, hbacked]
    exact .refl

lemma evolves_adoptSnapshot (s : Node) (hadopts : s.adoptsSnapshot m = true)
    (hlen : m.snapState.length = m.lastIncludedIndex) (hcovers : s.llen ≤ m.lastIncludedIndex) :
    s.core.Evolves (s.adoptSnapshot m).core := by
  obtain ⟨hbase, hcommit⟩ := of_decide_eq_true hadopts
  have hcore : (s.adoptSnapshot m).core = { s.core with
      state := m.snapState
      log := []
      base := m.snapState.length
      persistedBase := m.snapState.length
      applied := m.snapState.length
      commit := m.snapState.length
      stream := s.core.stream ++ [.recSnapshot m.snapState.length m.snapState] } := by
    simp [core, adoptSnapshot, persistSnapshotFull, enqueueDurable, hlen,
      Nat.max_eq_right hcommit.le]
  rw [hcore]
  exact .single (install s.core m.snapState (hbase.le.trans_eq hlen.symm)
    (hcovers.trans_eq hlen.symm))

lemma evolves_handleInstallSnapshot (s : Node) (hterm : m.term ≤ s.currentTerm)
    (hlen : m.snapState.length = m.lastIncludedIndex)
    (hcovers : m.term = s.currentTerm → s.adoptsSnapshot m = true →
      s.llen ≤ m.lastIncludedIndex) :
    s.core.Evolves (s.handleInstallSnapshot m).core := by
  rw [handleInstallSnapshot]
  extract_lets follower installed cleared
  split_ifs with hstale
  · exact .refl
  have heq : m.term = s.currentTerm := by omega
  change s.core.Evolves cleared.core
  rw [show cleared.core = installed.core from clearRepair_core installed]
  by_cases hadopts : follower.adoptsSnapshot m = true
  · rw [show installed = _ from if_pos hadopts]
    exact follower.evolves_adoptSnapshot hadopts hlen (hcovers heq hadopts)
  · rw [show installed = _ from if_neg hadopts]
    exact .refl

lemma evolves_adoptConfig (h : s.core.Compacted) (members : List NodeId) :
    s.core.Evolves (s.adoptConfig (s.cfgIdx + 1) members).core := by
  have hchain : s.cfgChain.length = s.cfgIdx + 1 := h.chain_len
  have hset : (s.cfgChain ++ replicate (s.cfgIdx + 1 + 1 - s.cfgChain.length) []).set
      (s.cfgIdx + 1) members = s.cfgChain ++ [members] := by
    rw [hchain, Nat.add_sub_cancel_left, ← hchain]
    simp
  rw [adoptConfig, hset, persistConfig, enqueueDurable_core]
  exact .single (config s.core members)

lemma evolves_handleConfigChange (h : s.core.Compacted) (hterm : m.term ≤ s.currentTerm)
    (hnext : m.term = s.currentTerm → s.cfgIdx < m.configChainIndex →
      m.configChainIndex = s.cfgIdx + 1) :
    s.core.Evolves (s.handleConfigChange m).core := by
  rw [handleConfigChange]
  extract_lets follower adopted
  split_ifs with hstale
  · exact .refl
  have heq : m.term = s.currentTerm := by omega
  change s.core.Evolves adopted.core
  by_cases hahead : follower.cfgIdx < m.configChainIndex
  · rw [show adopted = _ from if_pos hahead, hnext heq hahead]
    exact evolves_adoptConfig (s := follower) h m.configMembers
  · rw [show adopted = _ from if_neg hahead]
    exact .refl

lemma evolves_proposeConfigChange (h : s.core.Compacted) (server : NodeId) (add : Bool) :
    s.core.Evolves (s.proposeConfigChange server add).1.core := by
  have hchain : s.cfgChain.length = s.cfgIdx + 1 := h.chain_len
  rw [proposeConfigChange]
  cases s.proposedConfig server add with
  | none => exact .refl
  | some nc =>
    dsimp only
    rw [broadcastConfigChange_core, persistConfig, enqueueDurable_core, hchain]
    exact .single (config s.core nc)

/-! ### The calls -/

lemma evolves_submit (s : Node) (value : Value) : s.core.Evolves (s.submit value).1.core := by
  rw [submit]
  by_cases hskip : !s.running ∨ s.role ≠ .leader
  · rw [if_pos hskip]
    exact .refl
  rw [if_neg hskip]
  extract_lets e appended idx noted persisted result pending
  have hpersisted : s.core.Evolves persisted.core := by
    have hcore : persisted.core = _ := s.appendEntry_core e
    rw [hcore]
    exact .single (append s.core e)
  split_ifs
  · exact hpersisted
  · change s.core.Evolves (broadcastAppend _).core
    rw [broadcastAppend_core]
    exact hpersisted

lemma evolves_timerTick (s : Node) (heartbeatDue electionDue : Bool) :
    s.core.Evolves (s.timerTick heartbeatDue electionDue).core := by
  rw [timerTick]
  split_ifs
  · exact .refl
  · rw [leaderTick_core]
    exact .refl
  · exact s.evolves_onElectionTimeout
  · exact .refl

structure Follows (s : Node) (m : RaftMsg) : Prop where
  whole : m.Whole
  covers : s.SnapshotCovers m
  continues : s.ConfigContinues m

lemma evolves_handle (h : s.core.Compacted) (hterm : m.term ≤ s.currentTerm)
    (hm : s.Follows m) : s.core.Evolves (s.handle m).core := by
  rw [handle]
  cases htype : m.type with
  | requestVote => exact s.evolves_handleRequestVote m
  | requestVoteResp =>
    dsimp only
    rw [handleVoteResponse_core]
    exact .refl
  | appendEntries => exact evolves_handleAppendEntries h m
  | appendEntriesResp => exact evolves_handleAppendEntriesResp h
  | installSnapshot =>
    exact s.evolves_handleInstallSnapshot hterm (hm.whole htype) fun heq ↦
      hm.covers heq.ge htype
  | installSnapshotResp =>
    dsimp only
    rw [handleInstallSnapshotResp_core]
    exact .refl
  | configChange =>
    exact evolves_handleConfigChange h hterm fun heq ↦ hm.continues heq.ge htype
  | configChangeResp =>
    dsimp only
    rw [handleConfigChangeResp_core]
    exact .refl

lemma Follows.maybeStepDown (hm : s.Follows m) : (s.maybeStepDown m.term).Follows m := by
  have hcurrent := s.maybeStepDown_currentTerm m.term
  obtain ⟨term, vote, role, votes, hint, records, heq⟩ := s.maybeStepDown_eq m.term
  rw [heq] at hcurrent ⊢
  have hle : term ≤ m.term → s.currentTerm ≤ m.term := fun hle ↦
    (le_max_left _ _).trans (hcurrent.ge.trans hle)
  exact ⟨hm.whole, fun hterm ↦ hm.covers (hle hterm), fun hterm ↦ hm.continues (hle hterm)⟩

lemma evolves_receive (h : s.core.Compacted) (hm : s.Follows m) :
    s.core.Evolves (s.receive m).core := by
  rw [receive]
  split_ifs
  · have hbump := s.evolves_maybeStepDown m.term
    have hterm : m.term ≤ (s.maybeStepDown m.term).currentTerm :=
      (le_max_right _ _).trans (s.maybeStepDown_currentTerm m.term).ge
    exact hbump.trans (evolves_handle (hbump.compacted h) hterm hm.maybeStepDown)
  · exact .refl

end Node

end Lockstep.Consensus.RaftA
