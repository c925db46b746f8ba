import Lockstep.Consensus.RaftA.SimCluster

/-!
# Safety of a cluster of implementation A

What the simulation says about the nodes themselves: logs match, a term has one leader, and two
committed entries at one index are the same entry, at any two points of a run.
-/

namespace Lockstep.Consensus.RaftA

open Library TermLog Cluster
open List

variable {cc : ClusterConfig} {a : Machine} {c : Cluster} {n m : NodeId}

/-- A step of a run with fixed membership and without crashes, in which no snapshot makes its
receiver drop a suffix that followed the snapshot. -/
def Cluster.Stable (c : Cluster) (action : Action) : Prop :=
  action.crashFree = true ∧ action.fixedMembership = true ∧ c.keepsSuffixes action = true

instance (c : Cluster) (action : Action) : Decidable (c.Stable action) :=
  inferInstanceAs (Decidable (_ ∧ _))

instance (c : Cluster) (action : Action) : Decidable (c.Regular cc action) :=
  inferInstanceAs (Decidable (_ ∧ _))

lemma Cluster.Stable.regular {action : Action} (h : c.Stable action) : c.Regular cc action := by
  obtain ⟨hcrash, hfixed, hkeeps⟩ := h
  refine ⟨hcrash, hkeeps, ?_⟩
  cases action with
  | propose n server add => cases hfixed
  | _ => rfl

/-! ### What the simulation says about two nodes -/

variable {actions : List Action}

namespace ClusterSim

lemma between (hmeets : (Cluster.init cc).Meets cc (Cluster.Regular cc) actions) {p q : ℕ}
    (hpq : p ≤ q) :
    ∃ a b, Relation.ReflTransGen Step a b ∧ ClusterSim cc a (Cluster.reached cc actions p) ∧
      ClusterSim cc b (Cluster.reached cc actions q) := by
  obtain ⟨hbefore, later, hlater, heq⟩ := hmeets.between hpq
  obtain ⟨start, hstart⟩ := ClusterSim.init cc
  obtain ⟨a, -, hp⟩ := hstart.run hbefore
  obtain ⟨b, hsteps, hq⟩ := ClusterSim.run (c := Cluster.reached cc actions p) hp hlater
  refine ⟨a, b, hsteps, hp, ?_⟩
  rw [Cluster.reached, Cluster.run, heq]
  exact hq

lemma committed_take (h : ClusterSim cc a c) {b : Machine} (hext : Extends a b)
    (hn : n ∈ cc.cluster) :
    CommittedPrefix b (c.nodes n).currentTerm ((c.nodes n).logView.take (c.nodes n).commitIndex) :=
  (h.nodes n hn).committed.extends h.sound.chain hext

lemma committed_eq {b : Machine} {d : Cluster} (hc : ClusterSim cc a c) (hd : ClusterSim cc b d)
    (hext : Extends a b) (hn : n ∈ cc.cluster) (hm : m ∈ cc.cluster) {i : ℕ} (hpos : 1 ≤ i)
    (hi : i ≤ (c.nodes n).commitIndex) (hj : i ≤ (d.nodes m).commitIndex) :
    ∃ e, (c.nodes n).logView[i - 1]? = some e ∧ (d.nodes m).logView[i - 1]? = some e := by
  have hfirst := (hc.nodes n hn).length_committed
  have hsecond := (hd.nodes m hm).length_committed
  have heq := (hc.committed_take hext hn).getElem?_eq hd.sound.inv hd.sound.chain
    (hd.committed_take (Extends.refl b) hm) (i := i - 1) (by omega) (by omega)
  rw [getElem?_take_of_lt (by omega), getElem?_take_of_lt (by omega)] at heq
  obtain ⟨e, he⟩ : ∃ e, (c.nodes n).logView[i - 1]? = some e :=
    ⟨_, getElem?_eq_getElem (by
      have hle := length_take_le' (c.nodes n).commitIndex (c.nodes n).logView
      omega)⟩
  exact ⟨e, he, heq ▸ he⟩

end ClusterSim

lemma regular_committed_eq (hmeets : (init cc).Meets cc (Regular cc) actions)
    (p q : ℕ) (hn : n ∈ cc.cluster) (hm : m ∈ cc.cluster) {i : ℕ} (hpos : 1 ≤ i)
    (hi : i ≤ ((reached cc actions p).nodes n).commitIndex)
    (hj : i ≤ ((reached cc actions q).nodes m).commitIndex) :
    ∃ e, ((reached cc actions p).nodes n).logView[i - 1]? = some e ∧
      ((reached cc actions q).nodes m).logView[i - 1]? = some e := by
  rcases Nat.le_total p q with hpq | hqp
  · obtain ⟨a, b, hsteps, hp, hq⟩ := ClusterSim.between hmeets hpq
    have hext := hp.sound.extends_of_steps hsteps
    exact hp.committed_eq hq hext hn hm hpos hi hj
  · obtain ⟨a, b, hsteps, hq, hp⟩ := ClusterSim.between hmeets hqp
    have hext := hq.sound.extends_of_steps hsteps
    obtain ⟨e, hem, hen⟩ := hq.committed_eq hp hext hm hn hpos hj hi
    exact ⟨e, hen, hem⟩

lemma regular_leader_unique (hmeets : (init cc).Meets cc (Regular cc) actions)
    (p q : ℕ) (hn : n ∈ cc.cluster) (hm : m ∈ cc.cluster)
    (hnlead : ((reached cc actions p).nodes n).role = .leader)
    (hmlead : ((reached cc actions q).nodes m).role = .leader)
    (hterm : ((reached cc actions p).nodes n).currentTerm =
      ((reached cc actions q).nodes m).currentTerm) : n = m := by
  rcases Nat.le_total p q with hpq | hqp
  · obtain ⟨a, b, hsteps, hp, hq⟩ := ClusterSim.between hmeets hpq
    have hext := hp.sound.extends_of_steps hsteps
    have hleads := hext.leader _ _ ((hp.nodes n hn).leader hnlead).leads
    rw [hterm, ((hq.nodes m hm).leader hmlead).leads] at hleads
    exact (Option.some.inj hleads).symm
  · obtain ⟨a, b, hsteps, hq, hp⟩ := ClusterSim.between hmeets hqp
    have hext := hq.sound.extends_of_steps hsteps
    have hleads := hext.leader _ _ ((hq.nodes m hm).leader hmlead).leads
    rw [← hterm, ((hp.nodes n hn).leader hnlead).leads] at hleads
    exact Option.some.inj hleads

/-! ### Fixed membership -/

def snapshotRun : List Action :=
  [.timer 1 false true, .deliver 0, .deliver 2, .submit 1 [97], .deliver 6, .deliver 7,
    .timer 1 true false, .deliver 8]

/-- Node 1 leads term 1 and has the entry `a` from node 3 acknowledged, so that it compacts and
ships a snapshot of length 1 to node 2. Node 2 receives the earlier AppendEntries with `a` and `b`
first and acknowledges both, which commits `b`; the snapshot then makes it drop `b`, and with the
vote of node 3 it leads term 2. -/
def overtakenRun : List Action :=
  [.timer 1 false true, .deliver 0, .deliver 2, .submit 1 [97], .submit 1 [98],
    .timer 1 false false, .deliver 6, .deliver 9, .timer 1 true false, .deliver 7, .deliver 12,
    .deliver 10, .timer 2 false true, .deliver 15, .deliver 16]

/-- State-machine safety: entries committed at one index are equal, on any two nodes and at any two
points of a stable run. -/
theorem committed_entries_agree {actions : List Action}
    (hmeets : (init cc).Meets cc Stable actions) (p q : ℕ)
    (hn : n ∈ cc.cluster) (hm : m ∈ cc.cluster) {i : ℕ} (hpos : 1 ≤ i)
    (hi : i ≤ ((reached cc actions p).nodes n).commitIndex)
    (hj : i ≤ ((reached cc actions q).nodes m).commitIndex) :
    ∃ e, ((reached cc actions p).nodes n).logView[i - 1]? = some e ∧
      ((reached cc actions q).nodes m).logView[i - 1]? = some e :=
  regular_committed_eq (hmeets.imp fun _ _ h ↦ h.regular) p q hn hm hpos hi hj

/-- The leader's entry and the one its snapshot has installed. -/
theorem committed_entries_agree_snapshotRun :
    ∃ e, ((reached (threeNodes 0) snapshotRun 6).nodes 1).logView[1 - 1]? = some e ∧
      ((reached (threeNodes 0) snapshotRun 8).nodes 2).logView[1 - 1]? = some e :=
  committed_entries_agree (by decide +kernel) 6 8 (by decide) (by decide) (by decide)
    (by decide +kernel) (by decide +kernel)

/-- After the overtaken run the new leader commits another entry at index 2. -/
theorem overtaken_commits_differ :
    ∃ actions : List Action, (∀ action ∈ actions, action.crashFree ∧ action.fixedMembership) ∧
      2 ≤ (((init (threeNodes 1)).run (threeNodes 1) actions).nodes 1).commitIndex ∧
      2 ≤ (((init (threeNodes 1)).run (threeNodes 1) actions).nodes 2).commitIndex ∧
      (((init (threeNodes 1)).run (threeNodes 1) actions).nodes 1).logView[1]? ≠
        (((init (threeNodes 1)).run (threeNodes 1) actions).nodes 2).logView[1]? :=
  ⟨overtakenRun ++ [.submit 2 [99], .deliver 20, .deliver 21], by decide +kernel⟩

/-- Log matching: two logs with entries of one term at one index are equal up to it, in every state
of a stable run. -/
theorem log_matching {actions : List Action}
    (hmeets : (init cc).Meets cc Stable actions) (p : ℕ) (hn : n ∈ cc.cluster)
    (hm : m ∈ cc.cluster) {i : ℕ} {e f : LogEntry}
    (he : ((reached cc actions p).nodes n).logView[i]? = some e)
    (hf : ((reached cc actions p).nodes m).logView[i]? = some f)
    (hterm : e.term = f.term) :
    ((reached cc actions p).nodes n).logView.take (i + 1) =
      ((Cluster.reached cc actions p).nodes m).logView.take (i + 1) := by
  obtain ⟨a, -, -, hsim, -⟩ :=
    ClusterSim.between (hmeets.imp fun _ _ h ↦ h.regular) (le_refl p)
  have hcoherent := hsim.sound.inv.log_coherent
  exact Coherent.take_eq ((hsim.nodes n hn).log_eq ▸ hcoherent n)
    ((hsim.nodes m hm).log_eq ▸ hcoherent m) he hf hterm

theorem log_matching_snapshotRun :
    ((reached (threeNodes 0) snapshotRun 8).nodes 1).logView.take (0 + 1) =
      ((reached (threeNodes 0) snapshotRun 8).nodes 2).logView.take (0 + 1) :=
  log_matching (e := { term := 1, value := [97] }) (f := { term := 1, value := [97] })
    (by decide +kernel) 8 (by decide) (by decide) (by decide +kernel) (by decide +kernel) rfl

/-- Node 1 has compacted `a` and `b` when the new leader sends it `c` and `d`; it skips `c` as part
of its snapshot and appends `d`. -/
theorem overtaken_logs_mismatch :
    ∃ actions : List Action, (∀ action ∈ actions, action.crashFree ∧ action.fixedMembership) ∧
      (((init (threeNodes 0)).run (threeNodes 0) actions).nodes 1).logView[2]? =
        (((init (threeNodes 0)).run (threeNodes 0) actions).nodes 2).logView[2]? ∧
      (((init (threeNodes 0)).run (threeNodes 0) actions).nodes 1).logView[2]? =
        some { term := 2, value := [100] } ∧
      (((init (threeNodes 0)).run (threeNodes 0) actions).nodes 1).logView[1]? ≠
        (((init (threeNodes 0)).run (threeNodes 0) actions).nodes 2).logView[1]? :=
  ⟨overtakenRun ++ [.submit 2 [99], .submit 2 [100], .timer 2 false false, .deliver 21],
    by decide +kernel⟩

/-- The representation of a compacted log: the snapshot holds as many entries as its base says, the
indices are in order, and no access has left a vector. -/
structure Node.CompactedLog (s : Node) : Prop where
  snap_len : s.snapState.length = s.snapBase
  base_applied : s.snapBase ≤ s.appliedIndex
  applied_commit : s.appliedIndex ≤ s.commitIndex
  commit_len : s.commitIndex ≤ s.snapBase + s.log.length
  persisted_base : s.snapPersistedBase ≤ s.snapBase
  inBounds : s.outOfBounds = false

lemma NodeSim.compactedLog {s : Node} (h : NodeSim cc a n s) : s.CompactedLog where
  snap_len := h.snap_len
  base_applied := h.base_applied
  applied_commit := h.applied_le
  commit_len := h.commit_le
  persisted_base := h.persisted.le
  inBounds := h.inBounds

/-- In every state of a stable run the log is a compacted log, and no later step removes or replaces
an entry at or below the commit index. -/
theorem compacted_log_invariant {actions : List Action}
    (hmeets : (init cc).Meets cc Stable actions) (p : ℕ) (hn : n ∈ cc.cluster) :
    ((reached cc actions p).nodes n).CompactedLog ∧
      ∀ q, p ≤ q →
        ((reached cc actions q).nodes n).logView.take
            ((reached cc actions p).nodes n).commitIndex =
          ((reached cc actions p).nodes n).logView.take
            ((reached cc actions p).nodes n).commitIndex := by
  have hregular : (init cc).Meets cc (Regular cc) actions :=
    hmeets.imp fun _ _ h ↦ h.regular
  obtain ⟨a, -, -, hsim, -⟩ := ClusterSim.between hregular (le_refl p)
  refine ⟨(hsim.nodes n hn).compactedLog, fun q hpq ↦ ?_⟩
  obtain ⟨a, b, hsteps, hp, hq⟩ := ClusterSim.between hregular hpq
  have hbefore := hp.nodes n hn
  have hkept := hp.sound.prefix_log_of_steps hsteps (hbefore.term_eq.symm ▸ hbefore.committed)
    (hbefore.log_eq.symm ▸ take_prefix _ _)
  rw [(hq.nodes n hn).log_eq] at hkept
  rw [prefix_take_eq hkept hbefore.length_committed.ge, take_take, Nat.min_self]

theorem compacted_log_invariant_snapshotRun :
    ((reached (threeNodes 0) snapshotRun 8).nodes 2).snapBase = 1 ∧
      ((reached (threeNodes 0) snapshotRun 8).nodes 2).CompactedLog :=
  ⟨by decide +kernel, (compacted_log_invariant (by decide +kernel) 8 (by decide)).1⟩

/-- The last step of the run makes node 1 truncate its log below its commit index. -/
theorem overtaken_truncates_committed :
    ∃ actions : List Action, (∀ action ∈ actions, action.crashFree ∧ action.fixedMembership) ∧
      ((reached (threeNodes 1) actions 16).nodes 1).commitIndex = 2 ∧
      ((reached (threeNodes 1) actions 16).nodes 1).logView.take 2 ≠
        ((reached (threeNodes 1) actions 17).nodes 1).logView.take 2 ∧
      DurableRecord.recTrunc 1 ∈ ((reached (threeNodes 1) actions 17).nodes 1).writeQueue :=
  ⟨overtakenRun ++ [.submit 2 [99], .deliver 19], by decide +kernel⟩

/-! ### Configuration changes -/

def fiveNodes : ClusterConfig where
  cluster := [1, 2, 3, 4, 5]
  initConfig := [1, 2, 3, 4]
  snapshotThreshold _ := 8
  clusterToken := 0
  cluster_sorted := by decide
  nil_notMem := by decide

def confirmedChangeRun : List Action :=
  [.timer 1 false true, .deliver 0, .deliver 1, .deliver 4, .deliver 5, .submit 1 [97],
    .deliver 10, .deliver 11, .deliver 14, .deliver 15, .propose 1 5 true, .deliver 19,
    .timer 1 true false, .deliver 21]

def rivalChangesRun : List Action :=
  [.timer 1 false true, .deliver 0, .deliver 1, .deliver 4, .deliver 5, .propose 1 5 true,
    .deliver 13, .timer 2 false true, .deliver 16, .deliver 17, .deliver 19, .deliver 20,
    .propose 2 1 false, .deliver 26, .deliver 15, .timer 1 false true, .deliver 32, .deliver 33,
    .deliver 34, .deliver 35, .timer 3 false true, .deliver 45, .deliver 48]

/-- Membership changes are safe in a regular run: a term has one leader, and entries committed at
one index are equal, on any two nodes and at any two points. -/
theorem membership_change_safe {actions : List Action}
    (hmeets : (init cc).Meets cc (Regular cc) actions) (p q : ℕ)
    (hn : n ∈ cc.cluster) (hm : m ∈ cc.cluster) :
    (((reached cc actions p).nodes n).role = .leader →
        ((reached cc actions q).nodes m).role = .leader →
        ((reached cc actions p).nodes n).currentTerm =
          ((reached cc actions q).nodes m).currentTerm → n = m) ∧
      ∀ i, 1 ≤ i → i ≤ ((reached cc actions p).nodes n).commitIndex →
        i ≤ ((reached cc actions q).nodes m).commitIndex →
        ∃ e, ((reached cc actions p).nodes n).logView[i - 1]? = some e ∧
          ((reached cc actions q).nodes m).logView[i - 1]? = some e :=
  ⟨regular_leader_unique hmeets p q hn hm,
    fun _ hpos hi hj ↦ regular_committed_eq hmeets p q hn hm hpos hi hj⟩

theorem membership_change_safe_confirmedChangeRun :
    ((reached fiveNodes confirmedChangeRun 11).nodes 1).cfgIdx = 1 ∧
      ∃ e, ((reached fiveNodes confirmedChangeRun 11).nodes 1).logView[1 - 1]? = some e ∧
        ((reached fiveNodes confirmedChangeRun 14).nodes 2).logView[1 - 1]? = some e :=
  ⟨by decide +kernel,
    (membership_change_safe (by decide +kernel) 11 14 (by decide) (by decide)).2 1 le_rfl
      (by decide +kernel) (by decide +kernel)⟩

/-- Both leaders of term 3 commit their own entry at index 1. -/
theorem rival_changes_elect_two :
    ∃ actions : List Action, (∀ action ∈ actions, action.crashFree) ∧
      (((init fiveNodes).run fiveNodes actions).nodes 1).role = .leader ∧
      (((init fiveNodes).run fiveNodes actions).nodes 3).role = .leader ∧
      (((init fiveNodes).run fiveNodes actions).nodes 1).currentTerm =
        (((init fiveNodes).run fiveNodes actions).nodes 3).currentTerm ∧
      1 ≤ (((init fiveNodes).run fiveNodes actions).nodes 1).commitIndex ∧
      1 ≤ (((init fiveNodes).run fiveNodes actions).nodes 3).commitIndex ∧
      (((init fiveNodes).run fiveNodes actions).nodes 1).logView[0]? ≠
        (((init fiveNodes).run fiveNodes actions).nodes 3).logView[0]? :=
  ⟨rivalChangesRun ++ [.submit 1 [97], .submit 3 [98], .deliver 58, .deliver 59, .deliver 61,
    .deliver 64, .deliver 65, .deliver 66], by decide +kernel⟩

/-! ### Leaders -/

lemma ClusterSim.leader_history (h : ClusterSim cc a c) (hn : n ∈ cc.cluster)
    (hlead : (c.nodes n).role = .leader) :
    a.leader (c.nodes n).currentTerm = some n ∧
      (c.nodes n).logView = a.history (c.nodes n).currentTerm := by
  have hnode := h.nodes n hn
  have hleads := (hnode.leader hlead).leads
  rw [← hnode.term_eq] at hleads ⊢
  exact ⟨hleads, hnode.log_eq ▸ h.sound.inv.leader_log n hleads⟩

/-- Leader completeness, across membership changes: a leader's log starts with what any node had
committed before in a term up to the leader's. -/
theorem leader_holds_committed {actions : List Action}
    (hmeets : (init cc).Meets cc (Regular cc) actions) {p q : ℕ} (hpq : p ≤ q)
    (hn : n ∈ cc.cluster) (hm : m ∈ cc.cluster)
    (hlead : ((reached cc actions q).nodes m).role = .leader)
    (hterm : ((reached cc actions p).nodes n).currentTerm ≤
      ((reached cc actions q).nodes m).currentTerm) :
    ((reached cc actions p).nodes n).logView.take ((reached cc actions p).nodes n).commitIndex <+:
      ((reached cc actions q).nodes m).logView := by
  obtain ⟨a, b, hsteps, hp, hq⟩ := ClusterSim.between hmeets hpq
  obtain ⟨hleads, hlog⟩ := hq.leader_history hm hlead
  have hcommitted := hp.committed_take (hp.sound.extends_of_steps hsteps) hn
  rw [hlog]
  exact (hcommitted.mono prefix_rfl hterm).prefix_history hq.sound.inv hq.sound.chain
    (hleads ▸ Option.some_ne_none m)

theorem leader_holds_committed_confirmedChangeRun :
    ((reached fiveNodes confirmedChangeRun 11).nodes 1).commitIndex = 1 ∧
      ((reached fiveNodes confirmedChangeRun 11).nodes 1).logView.take
          ((reached fiveNodes confirmedChangeRun 11).nodes 1).commitIndex <+:
        ((reached fiveNodes confirmedChangeRun 14).nodes 1).logView :=
  ⟨by decide +kernel, leader_holds_committed (by decide +kernel) (by decide) (by decide) (by decide)
    (by decide +kernel) (by decide +kernel)⟩

/-- As long as a node leads one term its log only grows at the end. -/
theorem leader_appends_only {actions : List Action}
    (hmeets : (init cc).Meets cc (Regular cc) actions) {p q : ℕ} (hpq : p ≤ q)
    (hn : n ∈ cc.cluster) (hfirst : ((reached cc actions p).nodes n).role = .leader)
    (hlast : ((reached cc actions q).nodes n).role = .leader)
    (hterm : ((reached cc actions p).nodes n).currentTerm =
      ((reached cc actions q).nodes n).currentTerm) :
    ((reached cc actions p).nodes n).logView <+: ((reached cc actions q).nodes n).logView := by
  obtain ⟨a, b, hsteps, hp, hq⟩ := ClusterSim.between hmeets hpq
  rw [(hp.leader_history hn hfirst).2, (hq.leader_history hn hlast).2, hterm]
  exact (hp.sound.extends_of_steps hsteps).history _

theorem leader_appends_only_confirmedChangeRun :
    ((reached fiveNodes confirmedChangeRun 5).nodes 1).logView <+:
      ((reached fiveNodes confirmedChangeRun 14).nodes 1).logView :=
  leader_appends_only (by decide +kernel) (by decide) (by decide) (by decide +kernel)
    (by decide +kernel) (by decide +kernel)

end Lockstep.Consensus.RaftA
