import Lockstep.Consensus.RaftA.Recovery
import Lockstep.Library.GuardedRun

/-!
# A cluster of nodes over an unreliable network

A cluster state has the nodes of one `ClusterConfig` and the list of every message ever handed to
`send_to`. A delivery names a message by its position among the sent ones and may be repeated,
postponed or left out, so the network loses, duplicates, delays and reorders.
-/

namespace Lockstep.Consensus.RaftA

open Library

structure Cluster where
  nodes : NodeId → Node
  net : List RaftMsg

inductive Action
  | submit (n : NodeId) (value : Value)
  | timer (n : NodeId) (heartbeatDue electionDue : Bool)
  | deliver (k : ℕ)
  | sync (n : NodeId) (count : ℕ)
  | propose (n : NodeId) (server : NodeId) (add : Bool)
  | crash (n : NodeId)
  | restart (n : NodeId)
  deriving DecidableEq

def Action.crashFree : Action → Bool
  | .crash _ | .restart _ => false
  | _ => true

def Action.fixedMembership : Action → Bool
  | .propose .. => false
  | _ => true

namespace Cluster

variable (cc : ClusterConfig)

def init : Cluster where
  nodes id := (Node.create (cc.nodeConfig id)).start
  net := []

def runOn (c : Cluster) (n : NodeId) (f : Node → Node) : Cluster :=
  if n ∈ cc.cluster then
    { nodes := fun id ↦ if id = n then { f (c.nodes n) with outbox := [] } else c.nodes id
      net := c.net ++ (f (c.nodes n)).outbox }
  else c

/-- One step: a client, a timer, a delivery in any order, a sync, a crash. -/
def act (c : Cluster) : Action → Cluster
  | .submit n value => c.runOn cc n fun s ↦ (s.submit value).1
  | .timer n heartbeatDue electionDue => c.runOn cc n fun s ↦ s.timerTick heartbeatDue electionDue
  | .deliver k =>
    match c.net[k]? with
    | none => c
    | some m => c.runOn cc m.dest fun s ↦ s.receive m
  | .sync n count => c.runOn cc n fun s ↦ s.syncRecords count
  | .propose n server add => c.runOn cc n fun s ↦ (s.proposeConfigChange server add).1
  | .crash n => c.runOn cc n Node.crash
  | .restart n => c.runOn cc n fun s ↦ if s.running then s else s.restart

abbrev run (c : Cluster) (actions : List Action) : Cluster := GuardedRun.run (act cc) c actions

/-- Every action of a run satisfies a condition in the state before it. -/
abbrev Meets (condition : Cluster → Action → Prop) (c : Cluster) (actions : List Action) : Prop :=
  GuardedRun.Meets (act cc) condition c actions

def reached (actions : List Action) (p : ℕ) : Cluster := (init cc).run cc (actions.take p)

end Cluster

def threeNodes (threshold : ℕ) : ClusterConfig where
  cluster := [1, 2, 3]
  initConfig := []
  snapshotThreshold _ := threshold
  clusterToken := 0
  cluster_sorted := by decide
  nil_notMem := by decide

end Lockstep.Consensus.RaftA
