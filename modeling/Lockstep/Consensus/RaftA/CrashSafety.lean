import Lockstep.Consensus.RaftA.Cluster
import Lockstep.Consensus.RaftA.Durability
import Lockstep.Consensus.RaftA.Elections
import Lockstep.Library.Majority

/-!
# Elections across crashes

A crash takes a node back to what its disk holds. The ledger of votes (`Ledger`) outlives it: it
says what every node has ever voted. A node whose disk replays to its last ballot cannot vote twice
in a term, so the ledger stays a function and two leaders of one term would share a voter
(`election_safety_across_crashes`).

The code hands a vote to the network before its record is durable. A crash in between takes the vote
back, and the node votes again (`unsynced_vote_elects_two`).
-/

namespace Lockstep.Consensus.RaftA

open Library TermLog Cluster Node List Function

variable {cc : ClusterConfig} {n m : NodeId} {s t : Node} {k k' : Core} {st st' : Replay}
  {cast cast' : NodeId → ℕ → Option NodeId}

lemma Core.Evolves.ballot (hsteps : k.Evolves k') :
    k'.term = k.term ∧ k'.vote = k.vote ∨
      ballotRank k.term k.vote < ballotRank k'.term k'.vote := by
  induction hsteps with
  | refl => exact .inl ⟨rfl, rfl⟩
  | tail _ hstep ih =>
    cases hstep with
    | ballot term vote hrank =>
      rcases ih with ⟨hterm, hvote⟩ | hlt
      · exact .inr (hterm ▸ hvote ▸ hrank)
      · exact .inr (hlt.trans hrank)
    | append | truncate | apply | compact | install | config => exact ih

/-- What the ledger says of a node: nothing beyond its term, and in its term the vote it has. -/
structure Ledger (cast : NodeId → ℕ → Option NodeId) (n : NodeId) (k : Core) : Prop where
  later : ∀ term, k.term < term → cast n term = none
  now : cast n k.term = if k.vote = kNil then none else some k.vote

lemma Ledger.eq_none (h : Ledger cast n k)
    (hrank : ballotRank k.term k.vote < ballotRank k'.term k'.vote) :
    cast n k'.term = none := by
  rw [ballotRank, ballotRank] at hrank
  rcases Nat.lt_trichotomy k.term k'.term with hlt | heq | hgt
  · exact h.later _ hlt
  · rw [← heq, h.now]
    split_ifs at hrank ⊢ <;> first | rfl | omega
  · split_ifs at hrank <;> omega

lemma Ledger.advance (h : Ledger cast n k) (hsteps : k.Evolves k') :
    ∃ cast', Ledger cast' n k' ∧ Keeps cast cast' ∧ ∀ v, v ≠ n → cast' v = cast v := by
  rcases hsteps.ballot with ⟨hterm, hvote⟩ | hrank
  · exact ⟨cast, ⟨fun term ↦ hterm ▸ h.later term, hterm ▸ hvote ▸ h.now⟩, fun _ _ _ ↦ id,
      fun _ _ ↦ rfl⟩
  have hnew := h.eq_none hrank
  have hle : k.term ≤ k'.term := by
    rw [ballotRank, ballotRank] at hrank
    split_ifs at hrank <;> omega
  refine ⟨update cast n (update (cast n) k'.term
    (if k'.vote = kNil then none else some k'.vote)), ⟨fun term hterm ↦ ?_, ?_⟩,
    fun v term c hcast ↦ ?_, fun v hne ↦ update_of_ne hne _ _⟩
  · rw [update_self, update_of_ne hterm.ne']
    exact h.later term (hle.trans_lt hterm)
  · rw [update_self, update_self]
  · by_cases hv : v = n
    · subst hv
      rw [update_self, update_of_ne]
      · exact hcast
      · rintro rfl
        rw [hnew] at hcast
        cases hcast
    · rwa [update_of_ne hv]

namespace Replay

variable {records : List DurableRecord}

lemma replay_state_length (h : st.replay records = some st')
    (hlen : st.state.length = st.base) : st'.state.length = st'.base := by
  induction records generalizing st with
  | nil => cases h; exact hlen
  | cons r records ih =>
    obtain ⟨next, hnext, hrest⟩ := Option.bind_eq_some_iff.mp h
    refine ih hrest ?_
    cases r with
    | recMeta => cases hnext; exact hlen
    | recEntry | recTrunc | recConfig =>
      rw [applyRecord] at hnext
      split_ifs at hnext
      cases hnext
      exact hlen
    | recSnapshot lii state =>
      rw [applyRecord] at hnext
      split_ifs at hnext with hok
      cases hnext
      exact hok.2
    | recSnapshotDelta fromBase toBase delta =>
      rw [applyRecord] at hnext
      split_ifs at hnext with hok
      cases hnext
      change (st.state ++ delta).length = toBase
      rw [length_append]
      omega

lemma replay_chain (h : st.replay records = some st')
    (hidx : st'.cfgIdx = 0) : st.cfgIdx = 0 ∧ st'.chain = st.chain := by
  induction records generalizing st with
  | nil => cases h; exact ⟨hidx, rfl⟩
  | cons r records ih =>
    obtain ⟨next, hnext, hrest⟩ := Option.bind_eq_some_iff.mp h
    obtain ⟨hnextIdx, hchain⟩ := ih hrest
    cases r with
    | recMeta => cases hnext; exact ⟨hnextIdx, hchain⟩
    | recEntry | recTrunc | recSnapshot | recSnapshotDelta =>
      rw [applyRecord] at hnext
      split_ifs at hnext
      cases hnext
      exact ⟨hnextIdx, hchain⟩
    | recConfig cidx members =>
      rw [applyRecord] at hnext
      split_ifs at hnext with hok
      cases hnext
      change max st.cfgIdx cidx = 0 at hnextIdx
      omega

end Replay

/-! ### Crashing and restarting -/

namespace Node

def Lasting (s : Node) (k : Core) : Prop :=
  s.running = true ∧ k = s.core ∨
    s.running = false ∧ s.crash = s ∧ (∀ r ∈ s.disk, r.Recoverable) ∧
      ∃ st, s.core.replayStart.replay s.disk = some st ∧ k = s.replayedCore st

lemma crash_crash (s : Node) : s.crash.crash = s.crash := by
  simp only [crash, map_map, comp_def]

lemma installReplay_idle (s : Node) (st : Replay) :
    (s.installReplay st).running = s.running ∧ (s.installReplay st).role = s.role ∧
      (s.installReplay st).outbox = s.outbox := by
  rw [installReplay]
  by_cases hany : st.any = true
  · rw [if_pos hany]
    exact ⟨rfl, rfl, rfl⟩
  · rw [if_neg hany]
    exact ⟨rfl, rfl, rfl⟩

lemma replayedCore_compacted (hreplay : s.core.replayStart.replay s.disk = some st)
    (hidx : st.cfgIdx = 0) : (s.replayedCore st).Compacted where
  state_len := Replay.replay_state_length hreplay rfl
  persisted := rfl
  commit_le := Nat.zero_le _
  applied_le := Nat.le_add_right _ _
  chain_len := by
    change st.chain.length = st.cfgIdx + 1
    rw [(Replay.replay_chain hreplay hidx).2, hidx]
    rfl

lemma replayedCore_rebuilt (hreplay : s.core.replayStart.replay s.disk = some st) :
    (s.replayedCore st).Rebuilt :=
  ⟨st, hreplay,
    { term := rfl, vote := rfl, log := rfl, base := rfl, state := rfl, chain := rfl
      cfgIdx := rfl }⟩

lemma exists_replay_disk (h : s.core.Rebuilt) (hidx : s.cfgIdx = 0)
    (hqueue : ∀ r ∈ s.writeQueue, r.ballot? = none) :
    ∃ st, s.core.replayStart.replay s.disk = some st ∧ st.term = s.currentTerm ∧
      st.vote = s.votedFor ∧ st.cfgIdx = 0 := by
  obtain ⟨full, hfull, hrebuilt⟩ := h
  change s.core.replayStart.replay (s.disk ++ s.writeQueue) = some full at hfull
  rw [Replay.replay_append] at hfull
  obtain ⟨st, hdisk, hrest⟩ := Option.bind_eq_some_iff.mp hfull
  have hnone : ballots s.writeQueue = [] := filterMap_eq_nil_iff.mpr hqueue
  have hballot : full.ballot = st.ballot := by
    rw [Replay.replay_ballot hrest, hnone]
    rfl
  have hfullIdx : full.cfgIdx = 0 := hrebuilt.cfgIdx.trans hidx
  exact ⟨st, hdisk, (congrArg Prod.fst hballot).symm.trans hrebuilt.term,
    (congrArg Prod.snd hballot).symm.trans hrebuilt.vote, (Replay.replay_chain hrest hfullIdx).1⟩

lemma Backed.of_follower (hrole : s.role = .follower) (hsent : ∀ m ∈ s.outbox, m.Backed cast) :
    s.Backed cast where
  nodup := fun hne ↦ absurd hrole hne
  votes := fun hne ↦ absurd hrole hne
  quorum := fun hleader ↦ by
    rw [hrole] at hleader
    cases hleader
  sent := hsent

end Node

/-! ### One voter -/

structure Voter (cc : ClusterConfig) (cast : NodeId → ℕ → Option NodeId) (n : NodeId) (s : Node) :
    Prop where
  cfg : s.cfg = cc.nodeConfig n
  outbox : s.outbox = []
  backed : s.Backed cast
  lasting : ∃ k, s.Lasting k ∧ k.Compacted ∧ k.Rebuilt ∧ k.chain = initConfigChain s.cfg ∧
    k.cfgIdx = 0 ∧ Ledger cast n k

def VoterStep (cc : ClusterConfig) (cast : NodeId → ℕ → Option NodeId) (n : NodeId) (t : Node) :
    Prop :=
  ∃ cast', Keeps cast cast' ∧ (∀ v, v ≠ n → cast' v = cast v) ∧
    Voter cc cast' n { t with outbox := [] } ∧ ∀ m ∈ t.outbox, m.Backed cast'

namespace Voter

variable (h : Voter cc cast n s)

include h

lemma mono (hkeeps : Keeps cast cast') (hsame : cast' n = cast n) : Voter cc cast' n s := by
  obtain ⟨k, hlasting, hcompacted, hrebuilt, hchain, hidx, hledger⟩ := h.lasting
  exact
    { h with
      backed := h.backed.mono hkeeps
      lasting := ⟨k, hlasting, hcompacted, hrebuilt, hchain, hidx,
        ⟨fun term hterm ↦ hsame ▸ hledger.later term hterm, hsame ▸ hledger.now⟩⟩ }

lemma silent : VoterStep cc cast n s := by
  have heq : { s with outbox := [] } = s := by rw [← h.outbox]
  refine ⟨cast, fun _ _ _ ↦ id, fun _ _ ↦ rfl, heq.symm ▸ h, ?_⟩
  rw [h.outbox]
  exact nofun

lemma call (hrunning : s.running = true) (hevolves : s.core.Compacted → s.core.Evolves t.core)
    (hbacked : ∀ cast', s.Backed cast' → Keeps cast cast' → s.core.Compacted → s.cfgIdx = 0 →
      t.Recorded cast' → t.Backed cast' ∧ SameSeat s t) :
    VoterStep cc cast n t := by
  obtain ⟨k, hlasting, hcompacted, hrebuilt, hchain, hidx, hledger⟩ := h.lasting
  obtain ⟨-, rfl⟩ | ⟨hdown, -⟩ := hlasting
  · have hsteps := hevolves hcompacted
    obtain ⟨cast', hledger', hkeeps, hothers⟩ := hledger.advance hsteps
    have hcfg : t.cfg = s.cfg := hsteps.config_eq
    have hrecorded : t.Recorded cast' := by
      intro hvote
      have hself : t.self = n := congrArg NodeConfig.selfId (hcfg.trans h.cfg)
      rw [hself]
      exact hledger'.now.trans (if_neg hvote)
    obtain ⟨hafter, hseat⟩ := hbacked cast' (h.backed.mono hkeeps) hkeeps hcompacted hidx hrecorded
    refine ⟨cast', hkeeps, hothers, ⟨hcfg.trans h.cfg, rfl, ?_, ?_⟩, hafter.sent⟩
    · exact { hafter with sent := fun m hm ↦ absurd hm not_mem_nil }
    · exact ⟨t.core, .inl ⟨hseat.running.trans hrunning, rfl⟩, hsteps.compacted hcompacted,
        hsteps.rebuilt hcompacted hrebuilt,
        hseat.chain.trans (hchain.trans (congrArg initConfigChain hcfg.symm)),
        hseat.cfgIdx.trans hidx, hledger'⟩
  · rw [hrunning] at hdown
    cases hdown

lemma crash (hqueue : ∀ r ∈ s.writeQueue, r.ballot? = none)
    (hrecords : ∀ r ∈ s.disk, r.Recoverable) : VoterStep cc cast n s.crash := by
  obtain ⟨k, hlasting, hcompacted, hrebuilt, hchain, hidx, hledger⟩ := h.lasting
  obtain ⟨-, rfl⟩ | ⟨-, hcrash, -⟩ := hlasting
  · obtain ⟨st, hreplay, hterm, hvote, hst⟩ := exists_replay_disk hrebuilt hidx hqueue
    have hcrashed : s.crash.core.replayStart.replay s.crash.disk = some st := hreplay
    refine silent ⟨h.cfg, h.outbox, .of_follower rfl ?_, s.crash.replayedCore st,
      .inr ⟨rfl, s.crash_crash, hrecords, st, hcrashed, rfl⟩,
      replayedCore_compacted hcrashed hst, replayedCore_rebuilt hcrashed,
      (Replay.replay_chain hcrashed hst).2, hst, ?_⟩
    · exact h.backed.sent
    refine ⟨fun term hlt ↦ hledger.later term ?_, ?_⟩
    · exact hterm.ge.trans_lt hlt
    · change cast n st.term = if st.vote = kNil then none else some st.vote
      rw [hterm, hvote]
      exact hledger.now
  · rw [hcrash]
    exact h.silent

lemma restart (hdown : s.running = false) : VoterStep cc cast n s.restart := by
  obtain ⟨k, hlasting, hcompacted, hrebuilt, hchain, hidx, hledger⟩ := h.lasting
  obtain ⟨hrunning, -⟩ | ⟨-, hcrash, hrecords, st, hreplay, rfl⟩ := hlasting
  · rw [hdown] at hrunning
    cases hrunning
  have hcore := s.crash_restart_core hrecords hreplay
  rw [hcrash] at hcore
  obtain ⟨hup, hrole, hout⟩ : s.restart.running = true ∧ s.restart.role = .follower ∧
    s.restart.outbox = s.outbox := installReplay_idle _ _
  have hcfg : s.restart.cfg = s.cfg := congrArg Core.config hcore
  refine silent ⟨hcfg.trans h.cfg, hout.trans h.outbox, .of_follower hrole ?_, _,
    .inl ⟨hup, hcore.symm⟩, hcompacted, hrebuilt, ?_, hidx, hledger⟩
  · rw [hout]
    exact h.backed.sent
  · rw [hcfg]
    exact hchain

end Voter

namespace Voter

variable (h : Voter cc cast n s)

include h

lemma crash_eq (hdown : s.running = false) : s.crash = s := by
  obtain ⟨k, ⟨hrunning, -⟩ | ⟨-, hcrash, -⟩, -⟩ := h.lasting
  · rw [hdown] at hrunning
    cases hrunning
  · exact hcrash

lemma submit (value : Value) : VoterStep cc cast n (s.submit value).1 := by
  by_cases hrunning : s.running = true
  · exact h.call hrunning (fun _ ↦ s.evolves_submit value) fun cast' hbacked _ hcompacted _ _ ↦
      hbacked.of_quiet (quiet_submit hcompacted.state_len value)
  · have hskip : !s.running ∨ s.role ≠ .leader := .inl (by simpa using hrunning)
    rw [Node.submit, if_pos hskip]
    exact h.silent

lemma timerTick (hn : n ∈ cc.cluster) (heartbeatDue electionDue : Bool) :
    VoterStep cc cast n (s.timerTick heartbeatDue electionDue) := by
  have hself : s.self ≠ kNil := by
    rw [self, h.cfg]
    exact fun heq ↦ cc.nil_notMem (heq ▸ hn)
  by_cases hrunning : s.running = true
  · exact h.call hrunning (fun _ ↦ s.evolves_timerTick heartbeatDue electionDue)
      fun cast' hbacked _ hcompacted hidx hrecorded ↦
        hbacked.timerTick hself hcompacted hidx hrecorded
  · have hskip : !s.running ∨ !s.recovered := .inl (by simpa using hrunning)
    rw [Node.timerTick, if_pos hskip]
    exact h.silent

lemma receive {m : RaftMsg} (hm : m.Backed cast)
    (hcovers : s.SnapshotCovers m) : VoterStep cc cast n (s.receive m) := by
  by_cases hrunning : s.running = true
  · exact h.call hrunning
      (fun hcompacted ↦ evolves_receive hcompacted
        ⟨hm.whole, hcovers, fun _ htype ↦ absurd htype hm.noConfig⟩)
      fun cast' hbacked hkeeps hcompacted hidx hrecorded ↦
        hbacked.receive (hm.mono hkeeps) hcompacted hidx hrecorded
  · rw [Node.receive, if_neg fun htaken ↦ hrunning htaken.1]
    exact h.silent

lemma syncRecords (count : ℕ) : VoterStep cc cast n (s.syncRecords count) := by
  by_cases hrunning : s.running = true
  · exact h.call hrunning (fun hcompacted ↦ evolves_syncRecords hcompacted count)
      fun cast' hbacked _ hcompacted _ _ ↦
        hbacked.of_quiet (quiet_syncRecords hcompacted.state_len count)
  have hcrash := h.crash_eq (by simpa using hrunning)
  have hsynced : s.syncRecords count = s := by
    rw [← hcrash, Node.syncRecords]
    simp [Node.crash, Node.advanceN1SelfCommit]
  rw [hsynced]
  exact h.silent

end Voter

/-! ### The cluster -/

structure Elections (cc : ClusterConfig) (cast : NodeId → ℕ → Option NodeId) (c : Cluster) :
    Prop where
  voters : ∀ n ∈ cc.cluster, Voter cc cast n (c.nodes n)
  net : ∀ m ∈ c.net, m.Backed cast

/-- The step keeps the membership, brings no snapshot shorter than the log it replaces, and crashes
a node only when its ballots are on its disk and its disk can be read. -/
def Cluster.KeepsBallots (c : Cluster) : Action → Prop
  | .crash n => (∀ r ∈ (c.nodes n).writeQueue, r.ballot? = none) ∧
      ∀ r ∈ (c.nodes n).disk, r.Recoverable
  | .deliver k => ∀ m ∈ c.net[k]?, (c.nodes m.dest).SnapshotCovers m
  | .propose .. => False
  | _ => True

instance (c : Cluster) : ∀ action, Decidable (c.KeepsBallots action)
  | .crash _ => inferInstanceAs (Decidable (_ ∧ _))
  | .deliver k => inferInstanceAs (Decidable (∀ m ∈ c.net[k]?, (c.nodes m.dest).SnapshotCovers m))
  | .propose .. => isFalse id
  | .submit .. | .timer .. | .sync .. | .restart .. => isTrue trivial

namespace Elections

variable {c : Cluster}

lemma init (cc : ClusterConfig) : Elections cc (fun _ _ ↦ none) (init cc) where
  voters := fun n _ ↦ by
    refine ⟨rfl, rfl, .of_follower rfl nofun, _,
      Or.inl ⟨rfl, rfl⟩, start_compacted _, start_rebuilt _, rfl, rfl,
      fun _ _ ↦ rfl, rfl⟩
  net := nofun

lemma runOn (h : Elections cc cast c) {f : Node → Node}
    (hstep : n ∈ cc.cluster → VoterStep cc cast n (f (c.nodes n))) :
    ∃ cast', Keeps cast cast' ∧ Elections cc cast' (c.runOn cc n f) := by
  rw [Cluster.runOn]
  split_ifs with hn
  · obtain ⟨cast', hkeeps, hothers, hvoter, hsent⟩ := hstep hn
    refine ⟨cast', hkeeps, fun v hv ↦ ?_,
      forall_mem_append.mpr ⟨fun m hm ↦ (h.net m hm).mono hkeeps, hsent⟩⟩
    dsimp only
    split_ifs with heq
    · exact heq ▸ hvoter
    · exact (h.voters v hv).mono hkeeps (hothers v heq)
  · exact ⟨cast, fun _ _ _ ↦ id, h⟩

lemma act (h : Elections cc cast c) {action : Action} (hkeeps : c.KeepsBallots action) :
    ∃ cast', Keeps cast cast' ∧ Elections cc cast' (c.act cc action) := by
  cases action with
  | submit n value =>
    rw [Cluster.act]
    exact h.runOn fun hn ↦ (h.voters n hn).submit value
  | timer n heartbeatDue electionDue =>
    rw [Cluster.act]
    exact h.runOn fun hn ↦ (h.voters n hn).timerTick hn heartbeatDue electionDue
  | deliver k =>
    rw [Cluster.act]
    cases hget : c.net[k]? with
    | none => exact ⟨cast, fun _ _ _ ↦ id, h⟩
    | some m =>
      exact h.runOn fun hn ↦
        (h.voters m.dest hn).receive (h.net m (mem_of_getElem? hget)) (hkeeps m hget)
  | sync n count =>
    rw [Cluster.act]
    exact h.runOn fun hn ↦ (h.voters n hn).syncRecords count
  | propose n server add => exact hkeeps.elim
  | crash n =>
    exact h.runOn fun hn ↦ (h.voters n hn).crash hkeeps.1 hkeeps.2
  | restart n =>
    rw [Cluster.act]
    refine h.runOn fun hn ↦ ?_
    split_ifs with hrunning
    · exact (h.voters n hn).silent
    · exact (h.voters n hn).restart (by simpa using hrunning)

lemma run (h : Elections cc cast c) {actions : List Action}
    (hmeets : c.Meets cc KeepsBallots actions) :
    ∃ cast', Keeps cast cast' ∧ Elections cc cast' (c.run cc actions) := by
  refine hmeets.induction (fun d ↦ ∃ cast', Keeps cast cast' ∧ Elections cc cast' d) ?_ ?_
  · rintro d action ⟨cast', hkeeps, hd⟩ hstep
    obtain ⟨cast'', hkeeps', hd'⟩ := hd.act hstep
    exact ⟨cast'', fun v term x hx ↦ hkeeps' v term x (hkeeps v term x hx), hd'⟩
  · exact ⟨cast, fun _ _ _ ↦ id, h⟩

lemma majority (h : Elections cc cast c) (hn : n ∈ cc.cluster)
    (hleader : (c.nodes n).role = .leader) :
    ∃ Q ∈ majorities (if cc.initConfig.isEmpty then cc.cluster else cc.initConfig),
      ∀ v ∈ Q, cast v (c.nodes n).currentTerm = some n := by
  have hvoter := h.voters n hn
  have hbacked := hvoter.backed
  have hrole : (c.nodes n).role ≠ .follower := by rw [hleader]; decide
  have hself : (c.nodes n).self = n := congrArg NodeConfig.selfId hvoter.cfg
  obtain ⟨k, ⟨-, rfl⟩ | ⟨-, hcrash, -⟩, -, -, hchain, hidx, -⟩ := hvoter.lasting
  · have hchain : (c.nodes n).cfgChain =
        [if cc.initConfig.isEmpty then cc.cluster else cc.initConfig] := by
      rw [hvoter.cfg] at hchain
      exact hchain
    have hidx : (c.nodes n).cfgIdx = 0 := hidx
    have hconfig : (c.nodes n).currentConfig =
        if cc.initConfig.isEmpty then cc.cluster else cc.initConfig := by
      rw [currentConfig, hchain, hidx]
      rfl
    have hquorum := hbacked.quorum hleader
    rw [quorum, hchain, hconfig] at hquorum
    refine ⟨_, mem_majorities_of_countP (hbacked.nodup hrole) hquorum fun v _ hv ↦ ?_,
      fun v hv ↦ (hbacked.votes hrole v hv.1).trans (congrArg some hself)⟩
    rw [inCurrentConfig, hconfig] at hv
    exact of_decide_eq_true hv
  · rw [← hcrash] at hleader
    cases hleader

end Elections

/-- No two nodes lead one term, at any two points of a run that keeps the ballots. -/
theorem election_safety_across_crashes {actions : List Action}
    (hmeets : (init cc).Meets cc KeepsBallots actions) (p q : ℕ)
    (hn : n ∈ cc.cluster) (hm : m ∈ cc.cluster)
    (hnleads : ((reached cc actions p).nodes n).role = .leader)
    (hmleads : ((reached cc actions q).nodes m).role = .leader)
    (hterm : ((reached cc actions p).nodes n).currentTerm =
      ((reached cc actions q).nodes m).currentTerm) :
    n = m := by
  wlog hpq : p ≤ q generalizing p q n m
  · exact (this q p hm hn hmleads hnleads hterm.symm (Nat.le_of_not_le hpq)).symm
  obtain ⟨hbefore, later, hlater, hreached⟩ := hmeets.between hpq
  obtain ⟨cast, -, hfirst⟩ := (Elections.init cc).run hbefore
  obtain ⟨cast', hkeeps, hsecond⟩ := hfirst.run hlater
  have hsecond : Elections cc cast' (reached cc actions q) := by
    rw [reached, run, hreached]
    exact hsecond
  obtain ⟨Q, hQ, hcast⟩ := hfirst.majority hn hnleads
  obtain ⟨R, hR, hcast'⟩ := hsecond.majority hm hmleads
  obtain ⟨v, hvQ, hvR⟩ := meet_majorities_self _ Q hQ R hR
  have hsame := (hkeeps _ _ _ (hcast v hvQ)).symm.trans (hterm ▸ hcast' v hvR)
  exact Option.some.inj hsame

def syncedVoteRun : List Action :=
  [.timer 1 false true, .deliver 1, .sync 3 4, .deliver 2, .crash 3, .restart 3,
    .timer 2 false true, .deliver 6, .timer 2 false true, .deliver 9, .deliver 10]

theorem election_safety_across_crashes_syncedVoteRun :
    ((reached (threeNodes 8) syncedVoteRun 4).nodes 1).role = .leader ∧
      ((reached (threeNodes 8) syncedVoteRun 11).nodes 2).role = .leader ∧
      ∀ p q, ((reached (threeNodes 8) syncedVoteRun p).nodes 1).role = .leader →
        ((reached (threeNodes 8) syncedVoteRun q).nodes 2).role = .leader →
        ((reached (threeNodes 8) syncedVoteRun p).nodes 1).currentTerm ≠
          ((reached (threeNodes 8) syncedVoteRun q).nodes 2).currentTerm :=
  ⟨by decide +kernel, by decide +kernel, fun p q hfirst hsecond hterm ↦
    absurd (election_safety_across_crashes (by decide +kernel) p q (by decide) (by decide) hfirst
      hsecond hterm) (by decide)⟩

def unsyncedVoteRun : List Action :=
  [.timer 1 false true, .deliver 1, .deliver 2, .crash 3, .restart 3, .timer 2 false true,
    .deliver 6, .deliver 7]

theorem unsynced_vote_elects_two :
    (∀ action ∈ unsyncedVoteRun, action.fixedMembership) ∧
      ((reached (threeNodes 8) unsyncedVoteRun 8).nodes 1).role = .leader ∧
      ((reached (threeNodes 8) unsyncedVoteRun 8).nodes 2).role = .leader ∧
      ((reached (threeNodes 8) unsyncedVoteRun 8).nodes 1).currentTerm =
        ((reached (threeNodes 8) unsyncedVoteRun 8).nodes 2).currentTerm := by
  decide +kernel

end Lockstep.Consensus.RaftA
