import Lockstep.Consensus.RaftA.Cluster
import Lockstep.Consensus.RaftA.SimMembership

/-!
# A cluster simulates the abstract machine

`ClusterSim` relates a whole cluster to a sound state of the abstract machine: every node agrees
with it and every message ever sent is justified by it.
-/

namespace Lockstep.Consensus.RaftA

open Library TermLog Node Moves List

variable {cc : ClusterConfig} {a : Machine} {n : NodeId} {s : Node} {m : RaftMsg}

/-! ### The remaining calls of a node -/

def Node.installDropsSuffix (s : Node) (m : RaftMsg) : Bool :=
  decide (m.type = .installSnapshot ∧ s.currentTerm ≤ m.term) && s.dropsMatchingSuffix m

lemma Node.dropsMatchingSuffix_maybeStepDown (s : Node) (term : ℕ) (m : RaftMsg) :
    (s.maybeStepDown term).dropsMatchingSuffix m = s.dropsMatchingSuffix m := by
  rw [maybeStepDown]
  split_ifs <;> rfl

namespace NodeSim

variable (h : NodeSim cc a n s)

include h

/-- A submitted value is the machine's `append`. -/
lemma appendOwn (hsound : Sound a) (hn : n ∈ cc.cluster)
    (hrole : s.role = .leader) {e : LogEntry} (hterm : e.term = s.currentTerm) :
    Moves n a (a.append n e) ∧
      NodeSim cc (a.append n e) n
        { s.appendEntry e with
          matchIndex := s.matchIndex.set s.selfIdx (s.appendEntry e).llen } := by
  have hleader := h.leader hrole
  have hmoves : Moves n a (a.append n e) := by
    have hleads := hleader.leads
    rw [← h.term_eq] at hleads hterm
    exact append hsound.inv hleads hterm
  refine ⟨hmoves, ?_⟩
  have hview : s.snapState ++ (s.log ++ [e]) = s.logView ++ [e] := (append_assoc ..).symm
  have hlen : (s.appendEntry e).llen = s.llen + 1 := by
    rw [llen, appendEntry, length_append, length_singleton, llen, Nat.add_assoc]
  have hacked : (a.append n e).acked n s.currentTerm = s.llen + 1 := by
    rw [← h.term_eq, ← length_logView h.snap_len, ← h.log_eq]
    exact (update₂_self _ _ _ _).trans length_append
  have happended : NodeSim cc (a.append n e) n (s.appendEntry e) :=
    { h with
      log_eq := by
        rw [a.append_log_self, h.log_eq]
        exact hview.symm
      commit_le := h.commit_le.trans ((Nat.le_succ _).trans hlen.ge)
      committed := by
        change CommittedPrefix (a.append n e) s.currentTerm
          ((s.snapState ++ (s.log ++ [e])).take s.commitIndex)
        rw [hview, take_append_of_le_length
          (h.commit_le.trans_eq (length_logView h.snap_len).symm)]
        exact h.committed.extends hsound.chain hmoves.ext
      candidate := fun hcand ↦ by cases hrole.symm.trans hcand
      leader := fun _ ↦
        { hleader.extends hmoves.ext (h.cfgIdx_le_top hsound) hleader.declared with
          self_acked := hlen.le.trans hacked.ge
          next := fun v hv ↦
            (hleader.next v hv).trans (Nat.succ_le_succ ((Nat.le_succ _).trans hlen.ge)) }
      outbox := fun msg hmsg ↦ (h.outbox msg hmsg).extends hsound hmoves.ext }
  have hself : s.selfIdx = s.idxOf n := by rw [selfIdx, h.self_eq]
  rw [hself]
  exact happended.setMatch hn (hlen.le.trans hacked.ge)

lemma setFlags (pending kicked : Bool) :
    NodeSim cc a n { s with replPending := pending, replKicked := kicked } :=
  { h with
    candidate := fun hcand ↦ { h.candidate hcand with }
    leader := fun hlead ↦ { h.leader hlead with } }

section

variable (hsound : Sound a)

include hsound

section

variable (hn : n ∈ cc.cluster)

include hn

lemma submit (value : Value) : ∃ a', Moves n a a' ∧ NodeSim cc a' n (s.submit value).1 := by
  rw [Node.submit]
  by_cases hskip : !s.running ∨ s.role ≠ .leader
  · rw [if_pos hskip]
    exact ⟨a, refl n a, h⟩
  rw [if_neg hskip]
  have hrole : s.role = .leader := not_not.mp fun hrole ↦ hskip (Or.inr hrole)
  extract_lets e appended idx noted persisted result pending
  obtain ⟨hmoves, hnoted⟩ := h.appendOwn hsound hn hrole (e := e) rfl
  have hsound' := hmoves.sound hsound
  have hpersisted : NodeSim cc (a.append n e) n persisted := hnoted.enqueueDurable _
  refine ⟨_, hmoves, ?_⟩
  split_ifs with hkicked
  · exact hpersisted.setFlags true _
  · exact ((hpersisted.setFlags true true).broadcastAppend hsound' hn).setFlags false _

lemma leaderTick (heartbeatDue : Bool) : NodeSim cc a n (s.leaderTick heartbeatDue) := by
  have hflushed : NodeSim cc a n s.flushPending := by
    rw [flushPending]
    split_ifs
    · exact (h.setFlags false false).broadcastAppend hsound hn
    · exact h.setFlags _ false
  have hbeaten := hflushed.broadcastAppend hsound hn
  rw [Node.leaderTick]
  extract_lets beaten
  split_ifs
  · exact hbeaten.broadcastConfigChange hsound hn
  · exact hbeaten
  · exact hflushed

lemma timerTick (heartbeatDue electionDue : Bool) :
    ∃ a', Moves n a a' ∧ NodeSim cc a' n (s.timerTick heartbeatDue electionDue) := by
  rw [Node.timerTick]
  split_ifs
  · exact ⟨a, refl n a, h⟩
  · exact ⟨a, refl n a, h.leaderTick hsound hn heartbeatDue⟩
  · exact h.onElectionTimeout hsound hn
  · exact ⟨a, refl n a, h⟩

lemma syncRecords (count : ℕ) : ∃ a', Moves n a a' ∧ NodeSim cc a' n (s.syncRecords count) := by
  refine NodeSim.advanceN1SelfCommit ?_ hsound hn
  exact
    { h with
      candidate := fun hcand ↦ { h.candidate hcand with }
      leader := fun hlead ↦ { h.leader hlead with } }

/-- The step lemma of one node, one case for each type of message. -/
lemma handle (hdest : m.dest = n) (hterm : m.term ≤ s.currentTerm) (hm : Justified cc a m)
    (hdrops : m.type = .installSnapshot → m.term = s.currentTerm →
      s.dropsMatchingSuffix m = false) :
    ∃ a', Moves n a a' ∧ NodeSim cc a' n (s.handle m) := by
  obtain ⟨hsource, hok⟩ := hm
  rw [Node.handle]
  unfold MessageOk at hok
  cases htype : m.type with
  | requestVote =>
    rw [htype] at hok
    exact h.handleRequestVote hsound hn hterm hsource hok
  | requestVoteResp =>
    rw [htype] at hok
    exact h.handleVoteResponse hsound hn hdest hok
  | appendEntries =>
    rw [htype] at hok
    exact h.handleAppendEntries hsound hn hterm hok
  | appendEntriesResp =>
    rw [htype] at hok
    exact h.handleAppendEntriesResp hsound hn hsource hok
  | installSnapshot =>
    rw [htype] at hok
    exact h.handleInstallSnapshot hsound hn hterm hok (hdrops htype)
  | installSnapshotResp =>
    rw [htype] at hok
    exact ⟨a, refl n a, h.handleInstallSnapshotResp hsound hn hsource hok⟩
  | configChange =>
    rw [htype] at hok
    exact h.handleConfigChange hsound hn hterm hok
  | configChangeResp =>
    rw [htype] at hok
    exact ⟨a, refl n a, h.handleConfigChangeResp hsound hsource hok⟩

lemma receive (hm : Justified cc a m) (hdrops : s.installDropsSuffix m = false) :
    ∃ a', Moves n a a' ∧ NodeSim cc a' n (s.receive m) := by
  rw [Node.receive]
  split_ifs with hhandled
  · obtain ⟨b, hbump, hsim⟩ := h.maybeStepDown hsound m.term
    have hsound' := hbump.sound hsound
    have hterm := s.maybeStepDown_currentTerm m.term
    obtain ⟨a', hmoves, hreceived⟩ := hsim.handle hsound' hn (hhandled.2.2.1.trans h.self_eq)
      ((le_max_right _ _).trans hterm.ge) (hm.extends hsound hbump.ext) fun htype heq ↦ by
        have hle : s.currentTerm ≤ m.term := (le_max_left _ _).trans (heq.trans hterm).ge
        rwa [installDropsSuffix, decide_eq_true ⟨htype, hle⟩, Bool.true_and,
          ← s.dropsMatchingSuffix_maybeStepDown m.term] at hdrops
    exact ⟨a', hbump.trans hmoves, hreceived⟩
  · exact ⟨a, refl n a, h⟩

end

end

end NodeSim

/-! ### Clusters -/

namespace Cluster

/-- No delivered snapshot drops entries that agree with it. -/
def keepsSuffixes (c : Cluster) : Action → Bool
  | .deliver k =>
    match c.net[k]? with
    | none => true
    | some m => !(c.nodes m.dest).installDropsSuffix m
  | _ => true

/-- A proposer has the newest configuration, and has committed in its own term under it. -/
def proposesConfirmed (cc : ClusterConfig) (c : Cluster) : Action → Bool
  | .propose n server add =>
    !((c.nodes n).proposedConfig server add).isSome ||
      (cc.cluster.all fun v ↦ decide ((c.nodes v).cfgIdx ≤ (c.nodes n).cfgIdx)) &&
        decide (c.nodes n).confirmsConfig
  | _ => true

/-- The steps under which a cluster is the machine. -/
def Regular (cc : ClusterConfig) (c : Cluster) (action : Action) : Prop :=
  action.crashFree = true ∧ c.keepsSuffixes action = true ∧ c.proposesConfirmed cc action = true

end Cluster

/-- Every node agrees with the machine and every message is justified by it. -/
structure ClusterSim (cc : ClusterConfig) (a : Machine) (c : Cluster) : Prop where
  sound : Sound a
  outside : ∀ n, n ∉ cc.cluster → a.cfg n = 0
  nodes : ∀ n ∈ cc.cluster, NodeSim cc a n (c.nodes n)
  net : ∀ m ∈ c.net, Justified cc a m

namespace ClusterSim

variable {c : Cluster}

lemma runOn (h : ClusterSim cc a c) {f : Node → Node}
    (hf : n ∈ cc.cluster → ∃ a', Moves n a a' ∧ NodeSim cc a' n (f (c.nodes n))) :
    ∃ a', Relation.ReflTransGen Step a a' ∧ ClusterSim cc a' (c.runOn cc n f) := by
  rw [Cluster.runOn]
  split_ifs with hn
  · obtain ⟨a', hmoves, hnode⟩ := hf hn
    refine ⟨a', hmoves.steps, hmoves.sound h.sound, ?_, ?_, ?_⟩
    · intro v hv
      rw [hmoves.cfg v fun heq ↦ hv (heq ▸ hn), h.outside v hv]
    · intro v hv
      dsimp only
      split_ifs with heq
      · subst heq
        exact
          { hnode with
            candidate := fun hcand ↦ { hnode.candidate hcand with }
            leader := fun hlead ↦ { hnode.leader hlead with }
            outbox := fun msg hmsg ↦ absurd hmsg not_mem_nil }
      · exact (h.nodes v hv).frame h.sound hmoves heq
    · exact forall_mem_append.mpr
        ⟨fun msg hmsg ↦ (h.net msg hmsg).extends h.sound hmoves.ext, hnode.outbox⟩
  · exact ⟨a, .refl, h⟩

lemma top_le (h : ClusterSim cc a c)
    (hlongest : ∀ v ∈ cc.cluster, (c.nodes v).cfgIdx ≤ (c.nodes n).cfgIdx) :
    a.top ≤ (c.nodes n).cfgIdx := by
  rcases Nat.eq_zero_or_pos a.top with hzero | hpos
  · exact hzero.trans_le (Nat.zero_le _)
  obtain ⟨v, -, hcfg⟩ := h.sound.chain.proposer (a.top - 1) (by omega)
  have hv : v ∈ cc.cluster := by
    by_contra hv
    rw [h.outside v hv] at hcfg
    omega
  have hle := hlongest v hv
  rw [(h.nodes v hv).cfg_idx] at hcfg
  omega

/-- The step lemma: a regular step of the cluster is some steps of the machine. -/
lemma act (h : ClusterSim cc a c) {action : Action} (hcrash : action.crashFree = true)
    (hkeeps : c.keepsSuffixes action = true)
    (hproposes : c.proposesConfirmed cc action = true) :
    ∃ a', Relation.ReflTransGen Step a a' ∧ ClusterSim cc a' (c.act cc action) := by
  cases action with
  | submit n value =>
    rw [Cluster.act]
    exact h.runOn fun hn ↦ (h.nodes n hn).submit h.sound hn value
  | timer n heartbeatDue electionDue =>
    rw [Cluster.act]
    exact h.runOn fun hn ↦ (h.nodes n hn).timerTick h.sound hn heartbeatDue electionDue
  | deliver k =>
    rw [Cluster.act]
    rw [Cluster.keepsSuffixes] at hkeeps
    cases hm : c.net[k]? with
    | none => exact ⟨a, .refl, h⟩
    | some m =>
      rw [hm] at hkeeps
      exact h.runOn fun hn ↦ (h.nodes m.dest hn).receive h.sound hn
        (h.net m (mem_of_getElem? hm)) (by simpa using hkeeps)
  | sync n count =>
    rw [Cluster.act]
    exact h.runOn fun hn ↦ (h.nodes n hn).syncRecords h.sound hn count
  | propose n server add =>
    rw [Cluster.act]
    refine h.runOn fun hn ↦ (h.nodes n hn).proposeConfigChange h.sound hn fun hsome ↦ ?_
    rw [Cluster.proposesConfirmed, hsome, Bool.not_true, Bool.false_or, Bool.and_eq_true,
      all_eq_true] at hproposes
    exact ⟨h.top_le fun v hv ↦ of_decide_eq_true (hproposes.1 v hv),
      of_decide_eq_true hproposes.2⟩
  | crash n => cases hcrash
  | restart n => cases hcrash

lemma init (cc : ClusterConfig) : ∃ a, ClusterSim cc a (Cluster.init cc) := by
  refine ⟨State.init NodeId Value (majorities
    (if cc.initConfig.isEmpty then cc.cluster else cc.initConfig)), ?_⟩
  refine
    { sound := sound_init (meet_majorities_self _), outside := fun _ _ ↦ rfl
      nodes := fun n _ ↦ ?_, net := fun m hm ↦ absurd hm not_mem_nil }
  change NodeSim cc _ n (create (cc.nodeConfig n)).start
  rw [start_create]
  exact
    { cfg_eq := rfl, term_eq := rfl, log_eq := rfl, vote_eq := rfl, snap_len := rfl
      persisted := rfl, base_applied := le_rfl, applied_le := le_rfl, commit_le := le_rfl
      committed := CommittedPrefix.nil _ _, repair := rfl, inBounds := rfl
      next_len := length_replicate, match_len := length_replicate
      adopted_len := length_replicate, chain_len := rfl, cfg_idx := rfl, quorum_eq := rfl
      candidate := fun hcand ↦ by cases hcand
      leader := fun hlead ↦ by cases hlead
      outbox := fun msg hmsg ↦ absurd hmsg not_mem_nil }

/-- The run lemma. -/
lemma run (h : ClusterSim cc a c) {actions : List Action}
    (hmeets : c.Meets cc (Cluster.Regular cc) actions) :
    ∃ a', Relation.ReflTransGen Step a a' ∧ ClusterSim cc a' (c.run cc actions) := by
  refine hmeets.induction (fun c ↦ ∃ a', Relation.ReflTransGen Step a a' ∧ ClusterSim cc a' c) ?_
    ⟨a, .refl, h⟩
  rintro c action ⟨b, hsteps, hsim⟩ ⟨hcrash, hkeeps, hproposes⟩
  obtain ⟨b', hsteps', hsim'⟩ := hsim.act hcrash hkeeps hproposes
  exact ⟨b', hsteps.trans hsteps', hsim'⟩

end ClusterSim

end Lockstep.Consensus.RaftA
