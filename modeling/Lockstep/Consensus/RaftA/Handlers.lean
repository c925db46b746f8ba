import Lockstep.Consensus.RaftA.Node

/-!
# A node of implementation A: client calls, timers and message handlers

Each handler of `RaftNodeA` is a function from a node to a node: it changes the state, enqueues
durable records and puts its messages in the outbox. `receive` is one turn of the receive loop,
`timerTick` one turn of the timer loop with the outcome of its two deadline tests as arguments.
-/

namespace Lockstep.Consensus.RaftA

namespace Node

/-- A client's value: the leader appends it, the others name the leader they know. -/
def submit (s : Node) (value : Value) : Node × SubmitResult :=
  if !s.running ∨ s.role ≠ .leader then (s, { leaderHint := s.leaderHint })
  else
    let e : LogEntry := { term := s.currentTerm, value := value }
    let s := s.appendEntry e
    let idx := s.llen
    let s := { s with matchIndex := s.matchIndex.set s.selfIdx idx }
    let s := s.persistEntry idx e
    let result : SubmitResult := { accepted := true, term := s.currentTerm, index := idx }
    let s := { s with replPending := true }
    if s.replKicked then (s, result)
    else ({ { s with replKicked := true }.broadcastAppend with replPending := false }, result)

def changedConfig (cur : List NodeId) (server : NodeId) (add : Bool) : List NodeId :=
  if add then cur ++ [server] else cur.filter (· ≠ server)

/-- The configuration a proposed change leads to, where the leader accepts the change. -/
def proposedConfig (s : Node) (server : NodeId) (add : Bool) : Option (List NodeId) :=
  let cur := s.cfgChain.getD s.cfgIdx []
  if !s.running ∨ s.role ≠ .leader then none
  else if s.cfgIdx ≠ s.cfgChain.length - 1 ∨ s.cfgCommittedIdx ≠ s.cfgIdx then none
  else if add = inConfig cur server then none
  else if add ∧ !inConfig s.cfg.cluster server then none
  else if !add ∧ server = s.self then none
  else if (changedConfig cur server add).isEmpty then none
  else some ((changedConfig cur server add).insertionSort (· ≤ ·))

/-- A change of one server. It is in force at once and commits later. -/
def proposeConfigChange (s : Node) (server : NodeId) (add : Bool) : Node × Bool :=
  match s.proposedConfig server add with
  | none => (s, false)
  | some nc =>
    let s := { s with cfgChain := s.cfgChain ++ [nc], cfgIdx := s.cfgChain.length }
    ((s.persistConfig s.cfgIdx nc).broadcastConfigChange, true)

/-- Disaster recovery: the node alone is the configuration, under a new token. -/
def forceNewCluster (s : Node) (newToken : ℕ) : Node :=
  if !s.running then s
  else
    let s := { s with
      cfgChain := [[s.self]]
      cfgIdx := 0
      cfgCommittedIdx := 0
      cfgAdopted := s.cfgAdopted.map fun _ ↦ 0
      clusterToken := newToken }
    { s.persistConfig 0 [s.self] with role := .follower, leaderHint := kNoLeader }

/-! ### Terms and elections -/

/-- A newer term makes the node a follower without a vote. -/
def maybeStepDown (s : Node) (term : ℕ) : Node :=
  if s.currentTerm < term then
    persistMeta
      { s with
        currentTerm := term, role := .follower, votedFor := kNil, votesGranted := [],
        leaderHint := kNoLeader }
  else s

def leaderStart (s : Node) : Node :=
  let last := s.llen
  { s with
    role := .leader
    leaderHint := s.self
    nextIndex := s.nextIndex.map fun _ ↦ last + 1
    matchIndex := (s.matchIndex.map fun _ ↦ 0).set s.selfIdx last
    sentIndex := s.sentIndex.map fun _ ↦ 0
    cfgAdopted := List.replicate s.cfg.cluster.length 0
    cfgCommittedIdx := if 0 < s.cfgIdx then s.cfgIdx - 1 else 0 }

/-- A won election. The newest configuration counts as not committed. -/
def becomeLeader (s : Node) : Node :=
  let s := s.leaderStart.broadcastAppend
  let s := if s.cfgCommittedIdx < s.cfgIdx then s.broadcastConfigChange else s
  s.maybeCommitConfig

def voteRequest (s : Node) (dest : NodeId) : RaftMsg :=
  { type := .requestVote, term := s.currentTerm, source := s.self, dest := dest
    lastLogIndex := s.llen, lastLogTerm := s.lastLogTerm, cfgIndex := s.cfgIdx }

def standForElection (s : Node) : Node :=
  persistMeta
    { s with
      currentTerm := s.currentTerm + 1, role := .candidate, votedFor := s.self,
      votesGranted := [s.self], leaderHint := kNoLeader }

/-- A timeout starts an election, unless the node repairs its log or is no member. -/
def onElectionTimeout (s : Node) : Node :=
  if !s.running then s
  else if !s.inCurrentConfig s.self then s
  else if 0 < s.repairWatermark ∧ s.llen < s.repairWatermark then s
  else
    let s := s.standForElection
    if s.quorum ≤ s.configVotes then s.becomeLeader
    else
      let s := s.access (s.termInBounds s.llen)
      s.peers.foldl (fun t d ↦ t.sendTo (s.voteRequest d)) s

/-- The four conditions of a vote. -/
def grantsVote (s : Node) (m : RaftMsg) : Bool :=
  let candUpToDate := s.lastLogTerm < m.lastLogTerm ∨
    m.lastLogTerm = s.lastLogTerm ∧ s.llen ≤ m.lastLogIndex
  let candCfgUpToDate := s.cfgIdx ≤ m.cfgIndex
  let canVote := s.votedFor = kNil ∨ s.votedFor = m.source
  let notBehindRepair := s.repairWatermark = 0 ∨ s.repairWatermark ≤ m.lastLogIndex
  decide (canVote ∧ candUpToDate ∧ candCfgUpToDate ∧ notBehindRepair)

/-- The reply is sent in the same step; the record of the vote is only enqueued. -/
def handleRequestVote (s : Node) (m : RaftMsg) : Node :=
  if m.term < s.currentTerm then
    s.sendTo
      { type := .requestVoteResp, term := s.currentTerm, source := s.self, dest := m.source
        granted := false }
  else
    let s := s.access (s.termInBounds s.llen)
    let grant := s.grantsVote m
    let s :=
      if grant ∧ s.votedFor ≠ m.source then { s with votedFor := m.source }.persistMeta else s
    s.sendTo
      { type := .requestVoteResp, term := s.currentTerm, source := s.self, dest := m.source
        granted := grant }

def handleVoteResponse (s : Node) (m : RaftMsg) : Node :=
  if s.role ≠ .candidate ∨ m.term ≠ s.currentTerm ∨ !m.granted then s
  else if m.source ∈ s.votesGranted then s
  else
    let s := { s with votesGranted := s.votesGranted ++ [m.source] }
    if s.quorum ≤ s.configVotes then s.becomeLeader else s

/-! ### AppendEntries -/

def appendResp (s : Node) (m : RaftMsg) (success : Bool) (matched : ℕ) : RaftMsg :=
  { type := .appendEntriesResp, term := s.currentTerm, source := s.self, dest := m.source
    success := success, matchIndex := matched }

def logOk (s : Node) (m : RaftMsg) : Bool :=
  decide (m.prevLogIndex = 0 ∨
    m.prevLogIndex ≤ s.llen ∧ s.termAt m.prevLogIndex = m.prevLogTerm)

/-- The place, from one, of the first entry with another term than the own log; or zero. -/
def firstConflict (s : Node) (prevIndex : ℕ) : ℕ → List LogEntry → ℕ
  | _, [] => 0
  | k, e :: entries =>
    let i := prevIndex + k
    if i ≤ s.snapBase then s.firstConflict prevIndex (k + 1) entries
    else if i ≤ s.llen then
      if s.termAt i ≠ e.term then k else s.firstConflict prevIndex (k + 1) entries
    else 0

def appendAll (s : Node) (entries : List LogEntry) : Node :=
  entries.foldl (fun s e ↦ let s := s.appendEntry e; s.persistEntry s.llen e) s

/-- Cuts the log at the first conflict and appends the entries it does not have. -/
def mergeEntries (s : Node) (m : RaftMsg) : Node :=
  let firstConflict := s.firstConflict m.prevLogIndex 1 m.entries
  if firstConflict ≠ 0 then
    let keep := m.prevLogIndex + firstConflict - 1
    let s := if keep < s.llen then (s.truncateTo keep).persistTrunc keep else s
    s.appendAll (m.entries.drop (firstConflict - 1))
  else
    let incomingLast := m.prevLogIndex + m.entries.length
    if s.llen < incomingLast then s.appendAll (m.entries.drop (s.llen - m.prevLogIndex)) else s

def clearRepair (s : Node) : Node :=
  if 0 < s.repairWatermark ∧ s.repairWatermark ≤ s.llen then { s with repairWatermark := 0 } else s

def adoptCommit (s : Node) (m : RaftMsg) : Node :=
  let lastNew := m.prevLogIndex + m.entries.length
  let adopt := if m.leaderCommit < lastNew then m.leaderCommit else lastNew
  if s.commitIndex < adopt then { s with commitIndex := adopt } else s

/-- A follower's answer to entries: check, merge, commit, reply. -/
def handleAppendEntries (s : Node) (m : RaftMsg) : Node :=
  if m.term < s.currentTerm then s.sendTo (s.appendResp m false 0)
  else
    let s := { s with role := .follower, leaderHint := m.source }
    let s := s.access (s.termInBounds m.prevLogIndex)
    if !s.logOk m then s.sendTo (s.appendResp m false 0)
    else
      -- The conflict scan reads terms above the snapshot and up to the end of the log.
      let s := s.access ((List.range' (m.prevLogIndex + 1) m.entries.length).all fun i ↦
        decide (i ≤ s.snapBase) || s.termInBounds i)
      let s := (s.mergeEntries m).clearRepair
      let s := (s.adoptCommit m).applyAndMaybeSnapshot
      s.sendTo (s.appendResp m true (m.prevLogIndex + m.entries.length))

/-- The leader's books of a follower. A success may commit, a failure steps back. -/
def handleAppendEntriesResp (s : Node) (m : RaftMsg) : Node :=
  if s.role ≠ .leader ∨ m.term ≠ s.currentTerm then s
  else
    let di := s.idxOf m.source
    if m.success then
      let matched := max (s.matchIndex.getD di 0) m.matchIndex
      let s := { s with
        matchIndex := s.matchIndex.set di matched
        nextIndex := s.nextIndex.set di (matched + 1) }
      let s := s.advanceCommitIndex.applyAndMaybeSnapshot
      if s.sentIndex.getD di 0 ≤ s.matchIndex.getD di 0 ∧ s.nextIndex.getD di 0 ≤ s.llen then
        s.replicateTo m.source
      else s
    else
      let s :=
        if 1 < s.nextIndex.getD di 0 then
          { s with nextIndex := s.nextIndex.set di (s.nextIndex.getD di 0 - 1) }
        else s
      s.replicateTo m.source

def adoptsSnapshot (s : Node) (m : RaftMsg) : Bool :=
  decide (s.snapBase < m.lastIncludedIndex ∧ s.commitIndex < m.lastIncludedIndex)

/-- Puts the snapshot in place of the whole log, what is behind it included. -/
def adoptSnapshot (s : Node) (m : RaftMsg) : Node :=
  persistSnapshotFull
    { s with
      snapState := m.snapState, snapBase := m.lastIncludedIndex,
      appliedIndex := m.lastIncludedIndex, commitIndex := max s.commitIndex m.lastIncludedIndex,
      log := [] }

/-- A follower's answer to a snapshot. -/
def handleInstallSnapshot (s : Node) (m : RaftMsg) : Node :=
  if m.term < s.currentTerm then s
  else
    let s := { s with role := .follower, leaderHint := m.source }
    let s := if s.adoptsSnapshot m then s.adoptSnapshot m else s
    let s := s.clearRepair
    s.sendTo
      { type := .installSnapshotResp, term := s.currentTerm, source := s.self, dest := m.source
        matchIndex := max s.snapBase m.lastIncludedIndex }

def handleInstallSnapshotResp (s : Node) (m : RaftMsg) : Node :=
  if s.role ≠ .leader ∨ m.term ≠ s.currentTerm then s
  else
    let di := s.idxOf m.source
    let s := { s with
      matchIndex := s.matchIndex.set di (max (s.matchIndex.getD di 0) m.matchIndex)
      nextIndex := s.nextIndex.set di (m.matchIndex + 1) }
    s.replicateTo m.source

def adoptConfig (s : Node) (idx : ℕ) (members : List NodeId) : Node :=
  let chain := s.cfgChain ++ List.replicate (idx + 1 - s.cfgChain.length) []
  { s with cfgChain := chain.set idx members, cfgIdx := idx }.persistConfig idx members

/-- A follower takes any configuration with a larger index. -/
def handleConfigChange (s : Node) (m : RaftMsg) : Node :=
  if m.term < s.currentTerm then s
  else
    let s := { s with role := .follower, leaderHint := m.source }
    let s :=
      if s.cfgIdx < m.configChainIndex then s.adoptConfig m.configChainIndex m.configMembers
      else s
    s.sendTo
      { type := .configChangeResp, term := s.currentTerm, source := s.self, dest := m.source
        configChainIndex := s.cfgIdx }

def handleConfigChangeResp (s : Node) (m : RaftMsg) : Node :=
  if s.role ≠ .leader ∨ m.term ≠ s.currentTerm then s
  else
    let di := s.idxOf m.source
    maybeCommitConfig
      { s with cfgAdopted := s.cfgAdopted.set di (max (s.cfgAdopted.getD di 0) m.configChainIndex) }

def handle (s : Node) (m : RaftMsg) : Node :=
  match m.type with
  | .requestVote => s.handleRequestVote m
  | .requestVoteResp => s.handleVoteResponse m
  | .appendEntries => s.handleAppendEntries m
  | .appendEntriesResp => s.handleAppendEntriesResp m
  | .installSnapshot => s.handleInstallSnapshot m
  | .installSnapshotResp => s.handleInstallSnapshotResp m
  | .configChange => s.handleConfigChange m
  | .configChangeResp => s.handleConfigChangeResp m

def dispatch (s : Node) (m : RaftMsg) : Node := (s.maybeStepDown m.term).handle m

/-- One turn of the receive loop: messages of another cluster's token are dropped. -/
def receive (s : Node) (m : RaftMsg) : Node :=
  if s.running ∧ s.recovered ∧ m.dest = s.self ∧ m.clusterToken = s.clusterToken then s.dispatch m
  else s

def flushPending (s : Node) : Node :=
  let s := { s with replKicked := false }
  if s.replPending then { s with replPending := false }.broadcastAppend else s

def leaderTick (s : Node) (heartbeatDue : Bool) : Node :=
  let s := s.flushPending
  if heartbeatDue then
    let s := s.broadcastAppend
    if s.cfgCommittedIdx < s.cfgIdx then s.broadcastConfigChange else s
  else s

/-- One turn of the timer loop. -/
def timerTick (s : Node) (heartbeatDue electionDue : Bool) : Node :=
  if !s.running ∨ !s.recovered then s
  else if s.role = .leader then s.leaderTick heartbeatDue
  else if electionDue then s.onElectionTimeout
  else s

end Node

end Lockstep.Consensus.RaftA
