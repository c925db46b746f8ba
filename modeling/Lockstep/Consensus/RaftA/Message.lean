import Lockstep.Consensus.Types

/-!
# Messages and durable records of implementation A

`RaftMsg` is the flat message record of `raft_a/RaftNodeA.hpp`: every message carries every field,
and a sender fills the ones its type uses.
-/

namespace Lockstep.Consensus.RaftA

inductive MsgType
  | requestVote
  | requestVoteResp
  | appendEntries
  | appendEntriesResp
  | installSnapshot
  | installSnapshotResp
  | configChange
  | configChangeResp
  deriving DecidableEq

/-- One message. Every type uses the same record. -/
structure RaftMsg where
  type : MsgType := .requestVote
  term : ℕ := 0
  source : NodeId := 0
  dest : NodeId := 0
  clusterToken : ℕ := 0
  lastLogIndex : ℕ := 0
  lastLogTerm : ℕ := 0
  cfgIndex : ℕ := 0
  configChainIndex : ℕ := 0
  configMembers : List NodeId := []
  granted : Bool := false
  success : Bool := false
  matchIndex : ℕ := 0
  prevLogIndex : ℕ := 0
  prevLogTerm : ℕ := 0
  leaderCommit : ℕ := 0
  entries : List LogEntry := []
  lastIncludedIndex : ℕ := 0
  snapState : List LogEntry := []
  deriving DecidableEq

/-- A record of the durable log. -/
inductive DurableRecord
  | recMeta (term : ℕ) (votedFor : NodeId)
  | recEntry (index : ℕ) (entry : LogEntry)
  | recTrunc (newLen : ℕ)
  | recSnapshot (lastIncludedIndex : ℕ) (state : List LogEntry)
  | recSnapshotDelta (fromBase toBase : ℕ) (delta : List LogEntry)
  | recConfig (chainIndex : ℕ) (members : List NodeId)
  deriving DecidableEq

end Lockstep.Consensus.RaftA
