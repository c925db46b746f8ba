import Lockstep.Consensus.RaftA.Ballots
import Lockstep.Consensus.RaftA.NodePersistence
import Lockstep.Library.GuardedRun

/-!
# Recovery inverts persistence

A node is run by calls (`NodeCall`), and everything it enqueues reaches the disk. Then a crash and a
restart give the node back as it was: its term and vote, its log, its configuration. This holds for
runs whose messages recovery can follow and whose records it can read.
-/

namespace Lockstep.Consensus.RaftA

open Library Node DurableRecord GuardedRun RaftA.Core
open List

variable {s : Node} {st : Replay}

/-! ### A crashed node that restarts -/

namespace Node

def replayedCore (s : Node) (st : Replay) : Core where
  config := s.cfg
  term := st.term
  vote := st.vote
  log := st.log
  base := st.base
  state := st.state
  persistedBase := st.base
  applied := st.base
  commit := 0
  chain := st.chain
  cfgIdx := st.cfgIdx
  stream := s.disk

lemma installReplay_core (t : Node) (hcfg : st.haveCfg = false → st.cfgIdx = 0) :
    (t.installReplay st).core =
      if st.any then { t.replayedCore st with commit := t.commitIndex, stream := t.core.stream }
      else { t.core with chain := st.chain, cfgIdx := st.cfgIdx } := by
  have hidx : (if st.haveCfg then st.cfgIdx else 0) = st.cfgIdx := by
    split_ifs with hhave
    · rfl
    · exact (hcfg (by simpa using hhave)).symm
  rw [installReplay]
  by_cases hany : st.any = true
  · simp [hany, core, replayedCore, hidx]
  · simp only [hany, core, hidx]
    rfl

lemma crash_restartFrom_core (s : Node) {image : List UInt8}
    (hrun : s.core.replayStart.run image = st)
    (hany : st.any = true ∨ st = { s.core.replayStart with repairTo := st.repairTo })
    (hcfg : st.haveCfg = false → st.cfgIdx = 0) :
    (s.crash.restartFrom image).core = s.replayedCore st := by
  have hstream : s.crash.core.stream = s.disk := append_nil _
  change (installReplay _ (s.core.replayStart.run image)).core = _
  rw [hrun, installReplay_core _ hcfg]
  split_ifs with h
  · change { s.replayedCore st with stream := s.crash.core.stream } = _
    rw [hstream]
    rfl
  rw [hany.resolve_left h]
  change { s.replayedCore { s.core.replayStart with repairTo := st.repairTo } with
    stream := s.crash.core.stream } = _
  rw [hstream]
  rfl

lemma crash_restart_core (s : Node) (hrecords : ∀ r ∈ s.disk, r.Recoverable)
    (hreplay : s.core.replayStart.replay s.disk = some st) :
    s.crash.restart.core = s.replayedCore st := by
  have hrun := Replay.run_bytes hrecords hreplay
  have hplain : st.Plain := Replay.Plain.replay ⟨rfl, fun _ ↦ rfl⟩ hreplay
  refine s.crash_restartFrom_core hrun ?_ hplain.cfgIdx
  by_cases hempty : s.disk = []
  · rw [hempty] at hreplay
    cases hreplay
    exact .inr rfl
  · exact .inl (Replay.replay_any hreplay (.inr hempty))

def recoverAll (s : Node) : Node :=
  { s with disk := s.disk ++ s.writeQueue, writeQueue := [] }.crash.restart

lemma recoverAll_rebuilt (h : s.core.Rebuilt) (hrecords : ∀ r ∈ s.core.stream, r.Recoverable) :
    s.core.RebuiltBy { s.core.replayStart with
      term := s.recoverAll.currentTerm
      vote := s.recoverAll.votedFor
      log := s.recoverAll.log
      base := s.recoverAll.snapBase
      state := s.recoverAll.snapState
      chain := s.recoverAll.cfgChain
      cfgIdx := s.recoverAll.cfgIdx } := by
  obtain ⟨st, hreplay, hst⟩ := h
  have hcore := crash_restart_core
    { s with disk := s.disk ++ s.writeQueue, writeQueue := [] } hrecords hreplay
  exact
    { term := (congrArg term hcore).trans hst.term
      vote := (congrArg vote hcore).trans hst.vote
      log := (congrArg Core.log hcore).trans hst.log
      base := (congrArg Core.base hcore).trans hst.base
      state := (congrArg Core.state hcore).trans hst.state
      chain := (congrArg Core.chain hcore).trans hst.chain
      cfgIdx := (congrArg Core.cfgIdx hcore).trans hst.cfgIdx }

end Node

/-! ### Runs of one node -/

inductive NodeCall
  | submit (value : Value)
  | timer (heartbeatDue electionDue : Bool)
  | receive (m : RaftMsg)
  | sync (count : ℕ)
  | propose (server : NodeId) (add : Bool)
  | forceNewCluster (token : ℕ)
  deriving DecidableEq

variable (cfg : NodeConfig)

namespace Node

def call (s : Node) : NodeCall → Node
  | .submit value => (s.submit value).1
  | .timer heartbeatDue electionDue => s.timerTick heartbeatDue electionDue
  | .receive m => s.receive m
  | .sync count => s.syncRecords count
  | .propose server add => (s.proposeConfigChange server add).1
  | .forceNewCluster token => s.forceNewCluster token

def after (cfg : NodeConfig) (calls : List NodeCall) : Node :=
  run call (create cfg).start calls

def Recordable (s : Node) : NodeCall → Prop
  | .receive m => m.Whole ∧ s.SnapshotCovers m ∧ s.ConfigContinues m
  | .forceNewCluster _ => False
  | _ => True

instance (s : Node) : ∀ c : NodeCall, Decidable (s.Recordable c)
  | .receive m =>
    inferInstanceAs (Decidable (m.Whole ∧ s.SnapshotCovers m ∧ s.ConfigContinues m))
  | .forceNewCluster _ => isFalse id
  | .submit .. | .timer .. | .sync .. | .propose .. => isTrue trivial

lemma evolves_call (h : s.core.Compacted) {c : NodeCall} (hc : s.Recordable c) :
    s.core.Evolves (s.call c).core := by
  cases c with
  | submit value => exact s.evolves_submit value
  | timer heartbeatDue electionDue => exact s.evolves_timerTick heartbeatDue electionDue
  | receive m => exact evolves_receive h ⟨hc.1, hc.2.1, hc.2.2⟩
  | sync count => exact evolves_syncRecords h count
  | propose server add => exact evolves_proposeConfigChange h server add
  | forceNewCluster token => exact hc.elim

lemma start_compacted : (create cfg).start.core.Compacted := by
  rw [start_create]
  exact
    { state_len := rfl, persisted := rfl, commit_le := le_rfl, applied_le := Nat.zero_le _
      chain_len := rfl }

lemma start_rebuilt : (create cfg).start.core.Rebuilt := by
  rw [start_create]
  exact ⟨_, rfl,
    { term := rfl, vote := rfl, log := rfl, base := rfl, state := rfl, chain := rfl
      cfgIdx := rfl }⟩

variable {calls : List NodeCall}

lemma after_evolves {cfg : NodeConfig}
    (hmeets : Meets call Recordable (create cfg).start calls) :
    (create cfg).start.core.Evolves (after cfg calls).core := by
  refine hmeets.induction (fun t : Node ↦ (create cfg).start.core.Evolves t.core) ?_ ?_
  · intro t c ht hc
    exact ht.trans (evolves_call (Core.Evolves.compacted ht (start_compacted cfg)) hc)
  · exact Relation.ReflTransGen.refl

lemma after_rebuilt {cfg : NodeConfig}
    (hmeets : Meets call Recordable (create cfg).start calls) :
    (after cfg calls).core.Rebuilt :=
  Core.Evolves.rebuilt (after_evolves hmeets) (start_compacted cfg) (start_rebuilt cfg)

end Node

/-! ### Term, vote and log -/

/-- A call that concerns terms, votes and the log only, and brings no snapshot shorter than the log
it replaces. -/
def Node.LogCall (s : Node) : NodeCall → Prop
  | .receive m => m.type ≠ .configChange ∧ m.Whole ∧ s.SnapshotCovers m
  | .propose .. | .forceNewCluster .. => False
  | _ => True

instance (s : Node) : ∀ c : NodeCall, Decidable (s.LogCall c)
  | .receive m =>
    inferInstanceAs (Decidable (m.type ≠ .configChange ∧ m.Whole ∧ s.SnapshotCovers m))
  | .propose .. | .forceNewCluster .. => isFalse id
  | .submit .. | .timer .. | .sync .. => isTrue trivial

lemma Node.LogCall.recordable {c : NodeCall} (h : s.LogCall c) : s.Recordable c := by
  cases c with
  | receive m => exact ⟨h.2.1, h.2.2, fun _ htype ↦ absurd htype h.1⟩
  | propose server add => exact h.elim
  | forceNewCluster token => exact h.elim
  | _ => trivial

/-- Recovery inverts persistence: when every record has reached the disk and can be read, the
restarted node has the term, the vote and the logical log it had. -/
theorem recovery_inverts_persistence {cfg : NodeConfig} {calls : List NodeCall}
    (hmeets : Meets call LogCall (create cfg).start calls)
    (hrecords : ∀ r ∈ (after cfg calls).core.stream, r.Recoverable) :
    (after cfg calls).recoverAll.currentTerm = (after cfg calls).currentTerm ∧
      (after cfg calls).recoverAll.votedFor = (after cfg calls).votedFor ∧
      (after cfg calls).recoverAll.logView = (after cfg calls).logView := by
  have hrebuilt := recoverAll_rebuilt
    (after_rebuilt (hmeets.imp fun _ _ h ↦ h.recordable)) hrecords
  refine ⟨hrebuilt.term, hrebuilt.vote, ?_⟩
  rw [logView, logView]
  exact congrArg₂ (· ++ ·) hrebuilt.state hrebuilt.log

def follower : NodeConfig where
  selfId := 2
  cluster := [1, 2, 3]
  snapshotThreshold := 0

def followerRun : List NodeCall :=
  [.receive { type := .requestVote, term := 1, source := 1, dest := 2 },
    .receive
      { type := .appendEntries, term := 1, source := 1, dest := 2, leaderCommit := 1
        entries := [{ term := 1, value := [97] }, { term := 1, value := [98] }] },
    .sync 3,
    .receive
      { type := .appendEntries, term := 2, source := 3, dest := 2, prevLogIndex := 1
        prevLogTerm := 1, leaderCommit := 1, entries := [{ term := 2, value := [99] }] },
    .receive
      { type := .installSnapshot, term := 2, source := 3, dest := 2, lastIncludedIndex := 3
        snapState := [{ term := 1, value := [97] }, { term := 2, value := [99] },
          { term := 2, value := [100] }] }]

theorem recovery_inverts_persistence_followerRun :
    (after follower followerRun).currentTerm = 2 ∧
      (after follower followerRun).recoverAll.currentTerm =
        (after follower followerRun).currentTerm ∧
      (after follower followerRun).recoverAll.votedFor =
        (after follower followerRun).votedFor ∧
      (after follower followerRun).recoverAll.logView =
        (after follower followerRun).logView :=
  ⟨by decide +kernel, recovery_inverts_persistence (by decide +kernel) (by decide +kernel)⟩

def shorterSnapshotRun : List NodeCall :=
  [.receive
      { type := .appendEntries, term := 1, source := 1, dest := 2
        entries := [{ term := 1, value := [97] }, { term := 1, value := [98] }] },
    .receive
      { type := .installSnapshot, term := 1, source := 1, dest := 2, lastIncludedIndex := 1
        snapState := [{ term := 1, value := [97] }] },
    .receive
      { type := .appendEntries, term := 1, source := 1, dest := 2, prevLogIndex := 1
        prevLogTerm := 1, leaderCommit := 1, entries := [{ term := 1, value := [98] }] },
    .receive
      { type := .requestVote, term := 2, source := 3, dest := 2, lastLogIndex := 2
        lastLogTerm := 1 }]

/-- Recovery brings back the entry the snapshot dropped. The entry that is appended again then does
not continue the replayed log, and the vote after it is lost. -/
theorem shorter_snapshot_loses_vote :
    (∀ r ∈ (after follower shorterSnapshotRun).core.stream, r.Recoverable) ∧
      (after follower (shorterSnapshotRun.take 2)).recoverAll.logView ≠
        (after follower (shorterSnapshotRun.take 2)).logView ∧
      (after follower shorterSnapshotRun).votedFor = 3 ∧
      (after follower shorterSnapshotRun).recoverAll.currentTerm = 1 ∧
      (after follower shorterSnapshotRun).recoverAll.votedFor = kNil := by
  decide +kernel

/-! ### Configurations -/

/-- Recovery restores the adopted configuration, and every record persisted before and after it. -/
theorem recovery_restores_config {cfg : NodeConfig} {calls : List NodeCall}
    (hmeets : Meets call Recordable (create cfg).start calls)
    (hrecords : ∀ r ∈ (after cfg calls).core.stream, r.Recoverable) :
    (after cfg calls).recoverAll.cfgIdx = (after cfg calls).cfgIdx ∧
      (after cfg calls).recoverAll.currentConfig = (after cfg calls).currentConfig ∧
      (after cfg calls).recoverAll.currentTerm = (after cfg calls).currentTerm ∧
      (after cfg calls).recoverAll.votedFor = (after cfg calls).votedFor ∧
      (after cfg calls).recoverAll.logView = (after cfg calls).logView := by
  have hrebuilt := recoverAll_rebuilt (after_rebuilt hmeets) hrecords
  refine ⟨hrebuilt.cfgIdx, ?_, hrebuilt.term, hrebuilt.vote, ?_⟩
  · have hchain : (after cfg calls).recoverAll.cfgChain = (after cfg calls).cfgChain :=
      hrebuilt.chain
    have hidx : (after cfg calls).recoverAll.cfgIdx = (after cfg calls).cfgIdx :=
      hrebuilt.cfgIdx
    rw [currentConfig, currentConfig, hchain, hidx]
  · rw [logView, logView]
    exact congrArg₂ (· ++ ·) hrebuilt.state hrebuilt.log

def firstMember : NodeConfig where
  selfId := 1
  cluster := [1, 2, 3]
  initConfig := [1]

def growRun : List NodeCall :=
  [.timer false true, .submit [97], .propose 2 true, .submit [98]]

theorem recovery_restores_config_growRun :
    (after firstMember growRun).currentConfig = [1, 2] ∧
      (after firstMember growRun).recoverAll.cfgIdx =
        (after firstMember growRun).cfgIdx ∧
      (after firstMember growRun).recoverAll.currentConfig =
        (after firstMember growRun).currentConfig ∧
      (after firstMember growRun).recoverAll.currentTerm =
        (after firstMember growRun).currentTerm ∧
      (after firstMember growRun).recoverAll.votedFor =
        (after firstMember growRun).votedFor ∧
      (after firstMember growRun).recoverAll.logView =
        (after firstMember growRun).logView :=
  ⟨by decide +kernel, recovery_restores_config (by decide +kernel) (by decide +kernel)⟩

def forcedRun : List NodeCall := [.forceNewCluster 7, .timer false true]

def skippedConfigRun : List NodeCall :=
  [.receive
      { type := .configChange, term := 1, source := 1, dest := 2, configChainIndex := 2
        configMembers := [1, 2] },
    .receive { type := .requestVote, term := 2, source := 3, dest := 2, cfgIndex := 2 }]

/-- Recovery takes the configuration of a forced cluster, and one that skips an index, for the end
of the stream. The node is back in the configuration it started with, without its later votes. -/
theorem config_gaps_lose_records :
    ((∀ r ∈ (after follower forcedRun).core.stream, r.Recoverable) ∧
        (after follower forcedRun).currentConfig = [2] ∧
        (after follower forcedRun).votedFor = 2 ∧
        (after follower forcedRun).recoverAll.currentConfig = [1, 2, 3] ∧
        (after follower forcedRun).recoverAll.votedFor = kNil) ∧
      (∀ r ∈ (after follower skippedConfigRun).core.stream, r.Recoverable) ∧
        (after follower skippedConfigRun).cfgIdx = 2 ∧
        (after follower skippedConfigRun).votedFor = 3 ∧
        (after follower skippedConfigRun).recoverAll.cfgIdx = 0 ∧
        (after follower skippedConfigRun).recoverAll.votedFor = kNil := by
  decide +kernel

/-! ### A damaged frame -/

lemma Node.start_balloted : (create cfg).start.core.Balloted := by
  rw [start_create]
  exact ⟨[], rfl, nodup_singleton _, rfl, by simp [noBallot, core, create]⟩

/-- When the body of one frame is damaged, recovery restores the term and the vote exactly when the
frame and everything after it hold at most one metadata record: the second copy of the last
ballot. -/
theorem damaged_frame_keeps_ballot {cfg : NodeConfig} {calls : List NodeCall}
    (hmeets : Meets call Recordable (create cfg).start calls)
    {before rest : List DurableRecord} {r : DurableRecord}
    (hstream : (after cfg calls).core.stream = before ++ r :: rest)
    (hrecords : ∀ x ∈ before ++ r :: rest, x.Recoverable) {damaged : List UInt8}
    (hlen : damaged.length = r.body.length) (hdiffer : crc32 damaged ≠ crc32 r.body) :
    (((after cfg calls).crash.restartFrom (before.flatMap bytes ++
        (r.damagedBytes damaged ++ rest.flatMap bytes))).currentTerm =
        (after cfg calls).currentTerm ∧
      ((after cfg calls).crash.restartFrom (before.flatMap bytes ++
        (r.damagedBytes damaged ++ rest.flatMap bytes))).votedFor =
        (after cfg calls).votedFor) ↔
      (ballots (r :: rest)).length ≤ 1 := by
  obtain ⟨whole, hwhole, -⟩ := after_rebuilt hmeets
  rw [hstream] at hwhole
  obtain ⟨st, hreplay⟩ := Replay.exists_replay_of_append hwhole
  have hplain : st.Plain := Replay.Plain.replay ⟨rfl, fun _ ↦ rfl⟩ hreplay
  have hrun := Replay.run_damaged (fun x hx ↦ hrecords x (mem_append_left _ hx)) hreplay
    (hrecords r (mem_append_right _ mem_cons_self)) hlen hdiffer
    (rest.flatMap bytes)
  have hcore := (after cfg calls).crash_restartFrom_core hrun ?_ hplain.cfgIdx
  · have hterm := congrArg term hcore
    have hvote := congrArg vote hcore
    have hballoted := (start_balloted cfg).evolves (after_evolves hmeets)
    rw [← hballoted.replay_eq_iff hstream hreplay]
    exact ⟨fun h ↦ ⟨hterm.symm.trans h.1, hvote.symm.trans h.2⟩,
      fun h ↦ ⟨hterm.trans h.1, hvote.trans h.2⟩⟩
  · by_cases hempty : before = []
    · rw [hempty] at hreplay
      cases hreplay
      exact .inr rfl
    · have hany : st.any = true := Replay.replay_any hreplay (.inr hempty)
      exact .inl hany

def voteRun : List NodeCall :=
  [.receive { type := .requestVote, term := 1, source := 1, dest := 2 }]

theorem damaged_frame_keeps_ballot_voteRun :
    ((after follower voteRun).crash.restartFrom
        ([.recMeta 1 kNil, .recMeta 1 kNil, .recMeta 1 1].flatMap bytes ++
          ((recMeta 1 1).damagedBytes (List.replicate 17 0) ++
            [].flatMap bytes))).currentTerm =
        (after follower voteRun).currentTerm ∧
      ((after follower voteRun).crash.restartFrom
        ([.recMeta 1 kNil, .recMeta 1 kNil, .recMeta 1 1].flatMap bytes ++
          ((recMeta 1 1).damagedBytes (List.replicate 17 0) ++
            [].flatMap bytes))).votedFor = (after follower voteRun).votedFor :=
  (damaged_frame_keeps_ballot (by decide +kernel) (by decide +kernel) (by decide +kernel)
    (by decide +kernel) (by decide +kernel)).mpr (by decide)

/-- With the first copy of the vote damaged, the second is never read. -/
theorem damaged_first_copy_loses_vote :
    (after follower voteRun).core.stream =
        [.recMeta 1 kNil, .recMeta 1 kNil, .recMeta 1 1, .recMeta 1 1] ∧
      crc32 (List.replicate 17 0) ≠ crc32 (recMeta 1 1).body ∧
      (after follower voteRun).votedFor = 1 ∧
      ((after follower voteRun).crash.restartFrom
        ([.recMeta 1 kNil, .recMeta 1 kNil].flatMap bytes ++
          ((recMeta 1 1).damagedBytes (List.replicate 17 0) ++
            [.recMeta 1 1].flatMap bytes))).votedFor = kNil := by
  decide +kernel

end Lockstep.Consensus.RaftA
