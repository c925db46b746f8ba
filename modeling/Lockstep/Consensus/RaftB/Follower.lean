import Lockstep.Consensus.Types

/-!
# The follower side of implementation B

The state and the handlers with which `raft_b/RaftNodeB.hpp` receives AppendEntries and
InstallSnapshot. Implementation B has its own messages (`Msg`) and its own durable records
(`DurableRecord`), keeps its vote as an optional node, and requests a sync of the write queue where
implementation A leaves that to its worker.
-/

namespace Lockstep.Consensus.RaftB

inductive Kind
  | requestVote
  | requestVoteResp
  | appendEntries
  | appendEntriesResp
  | installSnapshot
  | installSnapshotResp
  | configChange
  | configChangeResp
  deriving DecidableEq

structure Msg where
  kind : Kind
  term : ℕ := 0
  source : NodeId := 0
  lastLogIndex : ℕ := 0
  lastLogTerm : ℕ := 0
  cfgIndex : ℕ := 0
  configChainIndex : ℕ := 0
  configMembers : List NodeId := []
  granted : Bool := false
  success : Bool := false
  matchIndex : ℕ := 0
  prevLogIndex : ℕ := 0
  prevLogTerm : ℕ := 0
  leaderCommit : ℕ := 0
  entries : List LogEntry := []
  lastIncludedIndex : ℕ := 0
  snapState : List LogEntry := []
  deriving DecidableEq

inductive DurableRecord
  | termRecord (term : ℕ) (vote : Option NodeId)
  | truncateRecord (newLen : ℕ)
  | entryRecord (index : ℕ) (entry : LogEntry)
  | snapshotRecord (lastIncludedIndex : ℕ) (state : List LogEntry)
  | snapshotDeltaRecord (fromBase toBase : ℕ) (delta : List LogEntry)
  | configRecord (chainIndex : ℕ) (members : List NodeId)
  deriving DecidableEq

/-- A follower of implementation B. -/
structure Node where
  cfg : NodeConfig
  role : Role := .follower
  currentTerm : ℕ := 0
  votedFor : Option NodeId := none
  log : List LogEntry := []
  snapBase : ℕ := 0
  snapState : List LogEntry := []
  snapPersistedBase : ℕ := 0
  appliedIndex : ℕ := 0
  commitIndex : ℕ := 0
  votesGranted : List Bool := []
  leaderHint : NodeId := kNoLeader
  running : Bool := false
  writeQueue : List DurableRecord := []
  wantSync : Bool := false
  outbox : List (NodeId × Msg) := []
  deriving DecidableEq

namespace Node

def self (s : Node) : NodeId := s.cfg.selfId

def llen (s : Node) : ℕ := s.snapBase + s.log.length

def termAt (s : Node) (i : ℕ) : ℕ :=
  if i = 0 ∨ s.llen < i then 0
  else if i ≤ s.snapBase then (s.snapState.getD (i - 1) default).term
  else (s.log.getD (i - s.snapBase - 1) default).term

def appendEntry (s : Node) (e : LogEntry) : Node := { s with log := s.log ++ [e] }

def truncateTo (s : Node) (newLen : ℕ) : Node :=
  { s with log := s.log.take ((if newLen < s.snapBase then s.snapBase else newLen) - s.snapBase) }

def enqueueDurable (s : Node) (r : DurableRecord) : Node :=
  { s with writeQueue := s.writeQueue ++ [r] }

def persistTermVote (s : Node) : Node := s.enqueueDurable (.termRecord s.currentTerm s.votedFor)

def persistEntry (s : Node) (i : ℕ) (e : LogEntry) : Node := s.enqueueDurable (.entryRecord i e)

def persistTruncate (s : Node) (newLen : ℕ) : Node := s.enqueueDurable (.truncateRecord newLen)

def persistSnapshot (s : Node) : Node :=
  if s.snapBase ≤ s.snapPersistedBase then s
  else
    { s.enqueueDurable (.snapshotDeltaRecord s.snapPersistedBase s.snapBase
        (s.snapState.drop s.snapPersistedBase)) with
      snapPersistedBase := s.snapBase }

def persistSnapshotFull (s : Node) : Node :=
  { s.enqueueDurable (.snapshotRecord s.snapBase s.snapState) with snapPersistedBase := s.snapBase }

def syncNow (s : Node) : Node := { s with wantSync := true }

def sendTo (s : Node) (peer : NodeId) (m : Msg) : Node :=
  if s.running then { s with outbox := s.outbox ++ [(peer, m)] } else s

def takeSnapshot (s : Node) : Node :=
  if s.appliedIndex ≤ s.snapBase then s
  else
    let take := s.appliedIndex - s.snapBase
    syncNow (persistSnapshot
      { s with
        snapState := s.snapState ++ s.log.take take, log := s.log.drop take,
        snapBase := s.appliedIndex })

def applyAndMaybeSnapshot (s : Node) : Node :=
  let s := if s.appliedIndex < s.commitIndex then { s with appliedIndex := s.commitIndex } else s
  if s.snapBase < s.appliedIndex ∧ s.cfg.snapshotThreshold < s.log.length then s.takeSnapshot
  else s

/-! ### The handlers -/

def maybeStepDown (s : Node) (term : ℕ) : Node :=
  if term ≤ s.currentTerm then s
  else
    syncNow (persistTermVote
      { s with currentTerm := term, role := .follower, votedFor := none, votesGranted := [] })

def replyAppend (s : Node) (dest : NodeId) (success : Bool) (matchIndex : ℕ) : Node :=
  s.sendTo dest
    { kind := .appendEntriesResp, term := s.currentTerm, source := s.self, success := success
      matchIndex := matchIndex }

def logOk (s : Node) (m : Msg) : Bool :=
  decide (m.prevLogIndex = 0 ∨
    m.prevLogIndex ≤ s.llen ∧ m.prevLogTerm = s.termAt m.prevLogIndex)

def firstConflict (s : Node) (prevIndex : ℕ) : ℕ → List LogEntry → ℕ
  | _, [] => 0
  | k, e :: entries =>
    let idx := prevIndex + k
    if idx ≤ s.snapBase then s.firstConflict prevIndex (k + 1) entries
    else if idx ≤ s.llen ∧ s.termAt idx ≠ e.term then k
    else s.firstConflict prevIndex (k + 1) entries

def appendAll (s : Node) (entries : List LogEntry) : Node :=
  entries.foldl (fun s e ↦ let s := s.appendEntry e; s.persistEntry s.llen e) s

/-- Cuts at the first conflict and appends, as implementation A does. -/
def mergeEntries (s : Node) (m : Msg) : Node × Bool :=
  let firstConflict := s.firstConflict m.prevLogIndex 1 m.entries
  if firstConflict = 0 then
    let already := s.llen
    let incomingEnd := m.prevLogIndex + m.entries.length
    if already < incomingEnd then
      let tail := m.entries.drop (already - m.prevLogIndex)
      (s.appendAll tail, !tail.isEmpty)
    else (s, false)
  else
    let keep := m.prevLogIndex + firstConflict - 1
    let tail := m.entries.drop (firstConflict - 1)
    if keep < s.llen then (((s.truncateTo keep).persistTruncate keep).appendAll tail, true)
    else (s.appendAll tail, !tail.isEmpty)

def adoptCommit (s : Node) (m : Msg) : Node :=
  let lastNew := m.prevLogIndex + m.entries.length
  if s.commitIndex < m.leaderCommit then
    let nc := if m.leaderCommit < lastNew then m.leaderCommit else lastNew
    if s.commitIndex < nc then { s with commitIndex := nc } else s
  else s

/-- What the merge has changed is synced before the reply. -/
def onAppendEntries (s : Node) (m : Msg) : Node :=
  if m.term < s.currentTerm then s.replyAppend m.source false 0
  else
    let s := { s with role := .follower, leaderHint := m.source }
    if !s.logOk m then s.replyAppend m.source false 0
    else
      let merged := s.mergeEntries m
      let s := if merged.2 then merged.1.syncNow else merged.1
      let s := (s.adoptCommit m).applyAndMaybeSnapshot
      s.replyAppend m.source true (m.prevLogIndex + m.entries.length)

def replyInstallSnapshot (s : Node) (dest : NodeId) (matchIndex : ℕ) : Node :=
  s.sendTo dest
    { kind := .installSnapshotResp, term := s.currentTerm, source := s.self
      matchIndex := matchIndex }

def adoptSnapshot (s : Node) (m : Msg) : Node :=
  syncNow (persistSnapshotFull
    { s with
      snapState := m.snapState
      snapBase := m.lastIncludedIndex
      appliedIndex := m.lastIncludedIndex
      commitIndex :=
        if s.commitIndex < m.lastIncludedIndex then m.lastIncludedIndex else s.commitIndex
      log := [] })

def onInstallSnapshot (s : Node) (m : Msg) : Node :=
  if m.term < s.currentTerm then s
  else
    let s := { s with role := .follower, leaderHint := m.source }
    let s :=
      if s.snapBase < m.lastIncludedIndex ∧ s.commitIndex < m.lastIncludedIndex then
        s.adoptSnapshot m
      else s
    s.replyInstallSnapshot m.source
      (if m.lastIncludedIndex < s.snapBase then s.snapBase else m.lastIncludedIndex)

end Node

end Lockstep.Consensus.RaftB
