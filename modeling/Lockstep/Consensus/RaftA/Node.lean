import Lockstep.Consensus.RaftA.Message
import Mathlib.Data.List.Sort

/-!
# A node of implementation A: state, compacted log, persistence, replication

`Node` has the in-memory state of class `RaftNodeA`, and two queues the class shares with its
environment: `outbox` holds the messages handed to `send_to` since the outbox was last emptied, and
`writeQueue` the durable records enqueued and not yet synced, in order.
-/

namespace Lockstep.Consensus.RaftA

def kMaxBatch : ℕ := 64

/-- A node of `RaftNodeA`. `outOfBounds` is set when an index leaves its vector. -/
structure Node where
  cfg : NodeConfig
  clusterToken : ℕ
  role : Role := .follower
  currentTerm : ℕ := 0
  votedFor : NodeId := kNil
  log : List LogEntry := []
  snapBase : ℕ := 0
  snapState : List LogEntry := []
  snapPersistedBase : ℕ := 0
  appliedIndex : ℕ := 0
  commitIndex : ℕ := 0
  repairWatermark : ℕ := 0
  votesGranted : List NodeId := []
  nextIndex : List ℕ
  matchIndex : List ℕ
  sentIndex : List ℕ
  cfgChain : List (List NodeId)
  cfgIdx : ℕ := 0
  cfgCommittedIdx : ℕ := 0
  cfgAdopted : List ℕ
  leaderHint : NodeId := kNoLeader
  running : Bool := false
  recovered : Bool := false
  replPending : Bool := false
  replKicked : Bool := false
  writeQueue : List DurableRecord := []
  disk : List DurableRecord := []
  outbox : List RaftMsg := []
  outOfBounds : Bool := false
  deriving DecidableEq

def initConfigChain (cfg : NodeConfig) : List (List NodeId) :=
  [if cfg.initConfig.isEmpty then cfg.cluster else cfg.initConfig]

/-- The constructor: nothing is recovered yet and nothing runs. -/
def Node.create (cfg : NodeConfig) : Node where
  cfg := cfg
  clusterToken := cfg.clusterToken
  nextIndex := List.replicate cfg.cluster.length 0
  matchIndex := List.replicate cfg.cluster.length 0
  sentIndex := List.replicate cfg.cluster.length 0
  cfgChain := initConfigChain cfg
  cfgAdopted := List.replicate cfg.cluster.length 0

namespace Node

def self (s : Node) : NodeId := s.cfg.selfId

def peers (s : Node) : List NodeId := s.cfg.cluster.filter (· ≠ s.self)

def idxOf (s : Node) (id : NodeId) : ℕ :=
  if id ∈ s.cfg.cluster then s.cfg.cluster.idxOf id else 0

def selfIdx (s : Node) : ℕ := s.idxOf s.self

def inConfig (config : List NodeId) (id : NodeId) : Bool := decide (id ∈ config)

def currentConfig (s : Node) : List NodeId :=
  if s.cfgChain.isEmpty then [] else s.cfgChain.getD s.cfgIdx []

def inCurrentConfig (s : Node) (id : NodeId) : Bool := inConfig s.currentConfig id

/-- More than half of the current configuration. -/
def quorum (s : Node) : ℕ :=
  (if s.cfgChain.isEmpty then s.cfg.cluster.length else s.currentConfig.length) / 2 + 1

def configVotes (s : Node) : ℕ := s.votesGranted.countP fun v ↦ s.inCurrentConfig v

/-- The length of the log, with the part folded into the snapshot. -/
def llen (s : Node) : ℕ := s.snapBase + s.log.length

/-- The whole log: what the snapshot holds, and the entries behind it. -/
def logView (s : Node) : List LogEntry := s.snapState ++ s.log

def entryAt (s : Node) (i : ℕ) : LogEntry :=
  if i ≤ s.snapBase then s.snapState.getD (i - 1) default
  else s.log.getD (i - s.snapBase - 1) default

def termAt (s : Node) (i : ℕ) : ℕ :=
  if i = 0 ∨ s.llen < i then 0 else (s.entryAt i).term

def lastLogTerm (s : Node) : ℕ := if s.llen = 0 then 0 else s.termAt s.llen

/-- Notes an access: `ok` says that the index was in range. -/
def access (s : Node) (ok : Bool) : Node := { s with outOfBounds := s.outOfBounds || !ok }

def entryInBounds (s : Node) (i : ℕ) : Bool :=
  if i ≤ s.snapBase then decide (1 ≤ i ∧ i ≤ s.snapState.length)
  else decide (i - s.snapBase ≤ s.log.length)

def termInBounds (s : Node) (i : ℕ) : Bool :=
  decide (i = 0 ∨ s.llen < i) || s.entryInBounds i

def appendEntry (s : Node) (e : LogEntry) : Node := { s with log := s.log ++ [e] }

def truncateTo (s : Node) (newLen : ℕ) : Node :=
  { s with log := s.log.take (max newLen s.snapBase - s.snapBase) }

def enqueueDurable (s : Node) (r : DurableRecord) : Node :=
  { s with writeQueue := s.writeQueue ++ [r] }

/-- Enqueues the term and the vote, twice. -/
def persistMeta (s : Node) : Node :=
  (s.enqueueDurable (.recMeta s.currentTerm s.votedFor)).enqueueDurable
    (.recMeta s.currentTerm s.votedFor)

def persistEntry (s : Node) (i : ℕ) (e : LogEntry) : Node :=
  s.enqueueDurable (.recEntry i e)

def persistTrunc (s : Node) (newLen : ℕ) : Node := s.enqueueDurable (.recTrunc newLen)

def persistSnapshot (s : Node) : Node :=
  if s.snapBase ≤ s.snapPersistedBase then s
  else
    let s := s.access (decide (s.snapPersistedBase ≤ s.snapState.length))
    { s.enqueueDurable (.recSnapshotDelta s.snapPersistedBase s.snapBase
        (s.snapState.drop s.snapPersistedBase)) with
      snapPersistedBase := s.snapBase }

def persistSnapshotFull (s : Node) : Node :=
  { s.enqueueDurable (.recSnapshot s.snapBase s.snapState) with snapPersistedBase := s.snapBase }

def persistConfig (s : Node) (chainIndex : ℕ) (members : List NodeId) : Node :=
  s.enqueueDurable (.recConfig chainIndex members)

def sendTo (s : Node) (m : RaftMsg) : Node :=
  { s with outbox := s.outbox ++ [{ m with clusterToken := s.clusterToken }] }

def foldTo (s : Node) (i : ℕ) : Node :=
  { s with
    snapState := s.snapState ++ s.log.take (i - s.snapBase),
    log := s.log.drop (i - s.snapBase), snapBase := i }

/-- Folds the applied entries into the snapshot. -/
def takeSnapshot (s : Node) : Node :=
  if s.appliedIndex ≤ s.snapBase then s
  else
    ((s.access (decide (s.appliedIndex - s.snapBase ≤ s.log.length))).foldTo
      s.appliedIndex).persistSnapshot

def applyAndMaybeSnapshot (s : Node) : Node :=
  let s := if s.appliedIndex < s.commitIndex then { s with appliedIndex := s.commitIndex } else s
  if s.snapBase < s.appliedIndex ∧ s.cfg.snapshotThreshold < s.log.length then s.takeSnapshot
  else s

def sendInstallSnapshot (s : Node) (dest : NodeId) : Node :=
  s.sendTo
    { type := .installSnapshot, term := s.currentTerm, source := s.self, dest := dest
      lastIncludedIndex := s.snapBase, snapState := s.snapState }

def batchIndices (s : Node) (prevIndex : ℕ) : List ℕ :=
  List.range' (prevIndex + 1) (min (s.llen - prevIndex) kMaxBatch)

/-- Sends the next batch of entries, or the snapshot when they are folded already. -/
def replicateTo (s : Node) (dest : NodeId) : Node :=
  let di := s.idxOf dest
  let prevIndex := max (s.nextIndex.getD di 0) 1 - 1
  if prevIndex < s.snapBase then s.sendInstallSnapshot dest
  else
    let batch := s.batchIndices prevIndex
    let s := s.access (s.termInBounds prevIndex && batch.all s.entryInBounds)
    { s with sentIndex := s.sentIndex.set di (prevIndex + batch.length) }.sendTo
      { type := .appendEntries, term := s.currentTerm, source := s.self, dest := dest
        prevLogIndex := prevIndex, prevLogTerm := s.termAt prevIndex
        leaderCommit := s.commitIndex, entries := batch.map s.entryAt }

def broadcastAppend (s : Node) : Node :=
  if s.role ≠ .leader then s else s.peers.foldl replicateTo s

def sendConfigChangeTo (s : Node) (dest : NodeId) : Node :=
  s.sendTo
    { type := .configChange, term := s.currentTerm, source := s.self, dest := dest
      configChainIndex := s.cfgIdx, configMembers := s.cfgChain.getD s.cfgIdx [] }

def broadcastConfigChange (s : Node) : Node :=
  if s.role ≠ .leader ∨ s.cfgChain.isEmpty then s
  else
    let head := s.cfgChain.getD s.cfgIdx []
    let prev := if 0 < s.cfgIdx then s.cfgChain.getD (s.cfgIdx - 1) [] else head
    (s.peers.filter fun d ↦ inConfig head d || inConfig prev d).foldl sendConfigChangeTo s

def adoptedCount (s : Node) (head : ℕ) : ℕ :=
  (List.range s.cfg.cluster.length).countP fun i ↦
    let id := s.cfg.cluster.getD i 0
    inConfig (s.cfgChain.getD head []) id &&
      (if id = s.self then decide (head ≤ s.cfgIdx) else decide (head ≤ s.cfgAdopted.getD i 0))

/-- Commits the newest configuration when a majority of it has adopted it. -/
def maybeCommitConfig (s : Node) : Node :=
  if s.role ≠ .leader ∨ s.cfgChain.isEmpty then s
  else
    let head := s.cfgChain.length - 1
    if head ≤ s.cfgCommittedIdx then s
    else if (s.cfgChain.getD head []).length < s.adoptedCount head * 2 then
      { s with cfgCommittedIdx := head }
    else s

def agreeCount (s : Node) (n : ℕ) : ℕ :=
  (List.range s.matchIndex.length).countP fun i ↦
    s.inCurrentConfig (s.cfg.cluster.getD i 0) &&
      (decide (i = s.selfIdx) || decide (n ≤ s.matchIndex.getD i 0))

/-- The downward search of `advance_commit_index`: entries of the own term only. -/
def advanceFrom (s : Node) : ℕ → Node
  | 0 => s
  | n + 1 =>
    if n + 1 ≤ s.commitIndex then s
    else
      let s := s.access (s.termInBounds (n + 1))
      if s.termAt (n + 1) ≠ s.currentTerm then s.advanceFrom n
      else if s.quorum ≤ s.agreeCount (n + 1) then { s with commitIndex := n + 1 }
      else s.advanceFrom n

def advanceCommitIndex (s : Node) : Node :=
  if s.role ≠ .leader then s else s.advanceFrom s.llen

def advanceN1SelfCommit (s : Node) : Node :=
  if s.role ≠ .leader ∨ s.quorum ≠ 1 then s
  else s.advanceCommitIndex.applyAndMaybeSnapshot

end Node

end Lockstep.Consensus.RaftA
