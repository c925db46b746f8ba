import Lockstep.Library.TermLog

/-!
# The consensus seam

The types both Raft implementations share (`consensus/ConsensusNode.hpp`): roles, log entries and
the per-node configuration.
-/

namespace Lockstep.Consensus

open Library

abbrev NodeId := ℕ

abbrev Value := List UInt8

abbrev LogEntry := TermLog.Entry Value

instance : Inhabited LogEntry :=
  ⟨{ term := 0, value := [] }⟩

inductive Role
  | follower
  | candidate
  | leader
  deriving DecidableEq

def kNil : ℕ := 0xFFFFFFFFFFFFFFFF

def kNoLeader : NodeId := kNil

structure SubmitResult where
  accepted : Bool := false
  term : ℕ := 0
  index : ℕ := 0
  leaderHint : NodeId := 0
  deriving DecidableEq

structure NodeConfig where
  selfId : NodeId
  cluster : List NodeId
  initConfig : List NodeId := []
  snapshotThreshold : ℕ := 8
  clusterToken : ℕ := 0
  deriving DecidableEq

structure ClusterConfig where
  cluster : List NodeId
  initConfig : List NodeId
  snapshotThreshold : NodeId → ℕ
  clusterToken : ℕ
  cluster_sorted : cluster.Pairwise (· < ·)
  nil_notMem : kNil ∉ cluster

def ClusterConfig.nodeConfig (cc : ClusterConfig) (id : NodeId) : NodeConfig where
  selfId := id
  cluster := cc.cluster
  initConfig := cc.initConfig
  snapshotThreshold := cc.snapshotThreshold id
  clusterToken := cc.clusterToken

lemma ClusterConfig.cluster_nodup (cc : ClusterConfig) : cc.cluster.Nodup :=
  cc.cluster_sorted.imp fun h ↦ ne_of_lt h

end Lockstep.Consensus
