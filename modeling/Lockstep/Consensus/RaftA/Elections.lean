import Lockstep.Consensus.RaftA.NodePersistence

/-!
# The votes behind a candidate and a leader

`cast v t` is the node for which `v` has voted in term `t`, over the whole run and across crashes. A
node is backed (`Node.Backed`) when every vote it counts was cast for it in its term, when it has a
quorum of them if it leads, and when the votes it grants in its messages were cast.
-/

namespace Lockstep.Consensus.RaftA

open RaftMsg List

variable {s t u : Node} {m : RaftMsg} {cast cast' : NodeId → ℕ → Option NodeId}

def RaftMsg.Neutral (m : RaftMsg) : Prop :=
  m.type ≠ .requestVote ∧ m.type ≠ .requestVoteResp ∧ m.type ≠ .configChange ∧ m.Whole

namespace Node

/-! ### Calls that take no part in elections -/

structure SameSeat (s t : Node) : Prop where
  cfg : t.cfg = s.cfg
  chain : t.cfgChain = s.cfgChain
  cfgIdx : t.cfgIdx = s.cfgIdx
  running : t.running = s.running

lemma SameSeat.refl (s : Node) : SameSeat s s := ⟨rfl, rfl, rfl, rfl⟩

lemma SameSeat.trans (h : SameSeat s t) (h' : SameSeat t u) : SameSeat s u :=
  ⟨h'.cfg.trans h.cfg, h'.chain.trans h.chain, h'.cfgIdx.trans h.cfgIdx,
    h'.running.trans h.running⟩

/-- The node keeps its term and its votes, keeps its role or follows, and sends neutral messages. -/
structure Quiet (s t : Node) : Prop extends SameSeat s t where
  term : t.currentTerm = s.currentTerm
  votes : t.votesGranted = s.votesGranted
  role : t.role = s.role ∨ t.role = .follower
  sent : ∀ m ∈ t.outbox, m ∈ s.outbox ∨ m.Neutral

namespace Quiet

lemma refl (s : Node) : Quiet s s where
  toSameSeat := .refl s
  term := rfl
  votes := rfl
  role := Or.inl rfl
  sent := fun _ ↦ Or.inl

lemma trans (h : Quiet s t) (h' : Quiet t u) : Quiet s u where
  toSameSeat := h.toSameSeat.trans h'.toSameSeat
  term := h'.term.trans h.term
  votes := h'.votes.trans h.votes
  role := h'.role.elim (fun heq ↦ h.role.imp heq.trans heq.trans) Or.inr
  sent := fun m hm ↦ (h'.sent m hm).elim (h.sent m) Or.inr

lemma sendTo (s : Node) (hm : m.Neutral) : Quiet s (s.sendTo m) where
  toSameSeat := ⟨rfl, rfl, rfl, rfl⟩
  term := rfl
  votes := rfl
  role := Or.inl rfl
  sent := forall_mem_append.mpr ⟨fun _ ↦ .inl, forall_mem_singleton.mpr (.inr hm)⟩

lemma foldl {f : Node → NodeId → Node} {P : Node → Prop} (hf : ∀ t d, P t → Quiet t (f t d))
    (hP : ∀ t d, P t → P (f t d)) (dests : List NodeId) (hs : P s) :
    Quiet s (dests.foldl f s) := by
  induction dests generalizing s with
  | nil => exact .refl s
  | cons d dests ih => exact (hf s d hs).trans (ih (hP s d hs))

end Quiet

lemma quiet_replicateTo (hsnap : s.snapState.length = s.snapBase) (dest : NodeId) :
    Quiet s (s.replicateTo dest) := by
  rw [replicateTo]
  extract_lets batch checked
  split_ifs
  · exact .sendTo s ⟨by simp, by simp, by simp, fun _ ↦ hsnap⟩
  · refine Quiet.trans ?_ (Quiet.sendTo _ ⟨by simp, by simp, by simp, by simp [Whole]⟩)
    exact { Quiet.refl s with }

lemma snap_len_of_core (hcore : t.core = s.core) (hsnap : s.snapState.length = s.snapBase) :
    t.snapState.length = t.snapBase :=
  (congrArg (·.state.length) hcore).trans (hsnap.trans (congrArg Core.base hcore).symm)

lemma quiet_broadcastAppend (hsnap : s.snapState.length = s.snapBase) :
    Quiet s s.broadcastAppend := by
  rw [broadcastAppend]
  split_ifs
  · exact .refl s
  · exact Quiet.foldl (P := fun t ↦ t.snapState.length = t.snapBase)
      (fun t d ht ↦ quiet_replicateTo ht d)
      (fun t d ht ↦ snap_len_of_core (t.replicateTo_core d) ht) _ hsnap

lemma quiet_maybeCommitConfig (s : Node) : Quiet s s.maybeCommitConfig := by
  rw [maybeCommitConfig]
  extract_lets head
  split_ifs
  · exact .refl s
  · exact .refl s
  · exact { Quiet.refl s with }
  · exact .refl s

lemma quiet_applyAndMaybeSnapshot (s : Node) : Quiet s s.applyAndMaybeSnapshot := by
  have htake : ∀ t : Node, Quiet t t.takeSnapshot := by
    intro t
    rw [takeSnapshot, persistSnapshot]
    extract_lets folded
    split_ifs
    · exact .refl t
    · exact { Quiet.refl t with }
    · exact { Quiet.refl t with }
  rw [applyAndMaybeSnapshot_eq]
  have happly : Quiet s { s with appliedIndex := max s.appliedIndex s.commitIndex } :=
    { Quiet.refl s with }
  split_ifs
  · exact happly.trans (htake _)
  · exact happly

lemma quiet_advanceAndApply (hsnap : s.snapState.length = s.snapBase) :
    Quiet s s.advanceCommitIndex.applyAndMaybeSnapshot := by
  refine Quiet.trans ?_ (quiet_applyAndMaybeSnapshot _)
  rw [advanceCommitIndex]
  split_ifs
  · exact .refl s
  rcases advanceFrom_eq hsnap s.llen with heq | ⟨c, -, -, -, -, heq⟩
  · rw [heq]
    exact .refl s
  · rw [heq]
    exact { Quiet.refl s with }

/-! ### The quiet handlers -/

section

variable (hsnap : s.snapState.length = s.snapBase)

include hsnap

lemma quiet_syncRecords (count : ℕ) : Quiet s (s.syncRecords count) := by
  have hsynced : Quiet s { s with
      disk := s.disk ++ s.writeQueue.take count
      writeQueue := s.writeQueue.drop count } :=
    { Quiet.refl s with }
  refine hsynced.trans ?_
  rw [syncRecords, advanceN1SelfCommit]
  split_ifs
  · exact .refl _
  · exact quiet_advanceAndApply hsnap

lemma quiet_submit (value : Value) : Quiet s (s.submit value).1 := by
  rw [submit]
  by_cases hskip : !s.running ∨ s.role ≠ .leader
  · rw [if_pos hskip]
    exact .refl s
  extract_lets e appended idx noted persisted result pending
  have hpending : Quiet s pending := { Quiet.refl s with }
  split_ifs
  · exact hpending
  · have hkicked : Quiet s { pending with replKicked := true } := { Quiet.refl s with }
    have hbroadcast := hkicked.trans (quiet_broadcastAppend hsnap)
    exact hbroadcast.trans { Quiet.refl _ with }

lemma quiet_leaderTick (hidx : s.cfgIdx = 0)
    (heartbeatDue : Bool) : Quiet s (s.leaderTick heartbeatDue) := by
  have hflush : Quiet s s.flushPending := by
    rw [flushPending]
    split_ifs
    · have hcleared : Quiet s { s with replKicked := false, replPending := false } :=
        { Quiet.refl s with }
      exact hcleared.trans (quiet_broadcastAppend hsnap)
    · exact { Quiet.refl s with }
  have hflushed : s.flushPending.snapState.length = s.flushPending.snapBase :=
    snap_len_of_core s.flushPending_core hsnap
  rw [leaderTick]
  extract_lets beaten
  have hbeaten : Quiet s beaten := hflush.trans (quiet_broadcastAppend hflushed)
  split_ifs with hdue hcfg
  · exact absurd (hbeaten.cfgIdx.trans hidx) (Nat.ne_of_gt (Nat.zero_lt_of_lt hcfg))
  · exact hbeaten
  · exact hflush

end

lemma quiet_handleAppendEntries (s : Node) (m : RaftMsg) :
    Quiet s (s.handleAppendEntries m) := by
  have hreply : ∀ (t : Node) (success : Bool) (matched : ℕ),
      Quiet t (t.sendTo (t.appendResp m success matched)) := fun t success matched ↦
    .sendTo t ⟨by simp [appendResp], by simp [appendResp], by simp [appendResp],
      by simp [Whole, appendResp]⟩
  rw [handleAppendEntries]
  extract_lets follower checked scanned merged adopted
  have hscanned : Quiet s scanned := { Quiet.refl s with role := .inr rfl }
  have hmerged : Quiet s merged := by
    obtain ⟨log, records, heq⟩ := scanned.mergeEntries_eq m
    refine hscanned.trans ?_
    change Quiet scanned (scanned.mergeEntries m).clearRepair
    rw [heq, clearRepair]
    split_ifs
    · exact { Quiet.refl scanned with }
    · exact { Quiet.refl scanned with }
  have hadopted : Quiet s adopted := by
    obtain ⟨c, -, heq⟩ := merged.adoptCommit_eq m
    have hcommit : Quiet merged (merged.adoptCommit m) := by
      rw [heq]
      exact { Quiet.refl merged with }
    exact hmerged.trans (hcommit.trans (quiet_applyAndMaybeSnapshot _))
  split_ifs
  · exact hreply s false 0
  · have hchecked : Quiet s checked := { Quiet.refl s with role := .inr rfl }
    exact hchecked.trans (hreply checked false 0)
  · exact hadopted.trans (hreply adopted true _)

lemma quiet_handleAppendEntriesResp (h : s.core.Compacted) (m : RaftMsg) :
    Quiet s (s.handleAppendEntriesResp m) := by
  rw [handleAppendEntriesResp]
  by_cases hskip : s.role ≠ .leader ∨ m.term ≠ s.currentTerm
  · rw [if_pos hskip]
    exact .refl s
  extract_lets di matched noted advanced backed
  have hadvanced : Quiet s advanced :=
    Quiet.trans (t := noted) { Quiet.refl s with } (quiet_advanceAndApply h.state_len)
  have hlen : advanced.snapState.length = advanced.snapBase :=
    ((evolves_advanceAndApply (s := noted) h).compacted h).state_len
  have hbacked : Quiet s (backed.replicateTo m.source) := by
    by_cases hback : 1 < s.nextIndex.getD di 0
    · rw [show backed = _ from if_pos hback]
      refine Quiet.trans ?_ (quiet_replicateTo ?_ m.source)
      · exact { Quiet.refl s with }
      · exact h.state_len
    · rw [show backed = _ from if_neg hback]
      exact quiet_replicateTo h.state_len m.source
  split_ifs
  · exact hadvanced.trans (quiet_replicateTo hlen m.source)
  · exact hadvanced
  · exact hbacked

lemma quiet_handleInstallSnapshot (s : Node) (m : RaftMsg) :
    Quiet s (s.handleInstallSnapshot m) := by
  rw [handleInstallSnapshot]
  extract_lets follower installed cleared
  have hinstalled : Quiet s installed := by
    by_cases hadopts : follower.adoptsSnapshot m = true
    · rw [show installed = _ from if_pos hadopts]
      exact { Quiet.refl s with role := .inr rfl }
    · rw [show installed = _ from if_neg hadopts]
      exact { Quiet.refl s with role := .inr rfl }
  have hcleared : Quiet installed cleared := by
    change Quiet installed installed.clearRepair
    rw [clearRepair]
    split_ifs
    · exact { Quiet.refl installed with }
    · exact .refl installed
  split_ifs
  · exact .refl s
  · exact (hinstalled.trans hcleared).trans
      (.sendTo cleared ⟨by simp, by simp, by simp, by simp [Whole]⟩)

lemma quiet_handleInstallSnapshotResp (hsnap : s.snapState.length = s.snapBase) (m : RaftMsg) :
    Quiet s (s.handleInstallSnapshotResp m) := by
  rw [handleInstallSnapshotResp]
  extract_lets di noted
  split_ifs
  · exact .refl s
  · have hnoted : Quiet s noted := { Quiet.refl s with }
    exact hnoted.trans (quiet_replicateTo (s := noted) hsnap m.source)

lemma quiet_handleConfigChangeResp (s : Node) (m : RaftMsg) :
    Quiet s (s.handleConfigChangeResp m) := by
  rw [handleConfigChangeResp]
  split_ifs
  · exact .refl s
  · refine Quiet.trans ?_ (quiet_maybeCommitConfig _)
    exact { Quiet.refl s with }

end Node

/-! ### Votes -/

structure RaftMsg.Backed (cast : NodeId → ℕ → Option NodeId) (m : RaftMsg) : Prop where
  whole : m.Whole
  noConfig : m.type ≠ .configChange
  source : m.type = .requestVote → m.source ≠ kNil
  granted : m.type = .requestVoteResp → m.granted = true → cast m.source m.term = some m.dest

lemma RaftMsg.Neutral.backed (h : m.Neutral) : m.Backed cast where
  whole := h.2.2.2
  noConfig := h.2.2.1
  source := fun htype ↦ absurd htype h.1
  granted := fun htype ↦ absurd htype h.2.1

def Keeps (cast cast' : NodeId → ℕ → Option NodeId) : Prop :=
  ∀ v term c, cast v term = some c → cast' v term = some c

lemma RaftMsg.Backed.mono (h : m.Backed cast) (hkeeps : Keeps cast cast') : m.Backed cast' :=
  { h with granted := fun htype hgranted ↦ hkeeps _ _ _ (h.granted htype hgranted) }

namespace Node

/-- The votes a node counts, its leadership and its messages are backed by votes cast. -/
structure Backed (cast : NodeId → ℕ → Option NodeId) (s : Node) : Prop where
  nodup : s.role ≠ .follower → s.votesGranted.Nodup
  votes : s.role ≠ .follower → ∀ v ∈ s.votesGranted, cast v s.currentTerm = some s.self
  quorum : s.role = .leader → s.quorum ≤ s.configVotes
  sent : ∀ m ∈ s.outbox, m.Backed cast

def Recorded (cast : NodeId → ℕ → Option NodeId) (s : Node) : Prop :=
  s.votedFor ≠ kNil → cast s.self s.currentTerm = some s.votedFor

namespace Backed

lemma mono (h : s.Backed cast) (hkeeps : Keeps cast cast') : s.Backed cast' where
  nodup := h.nodup
  votes := fun hrole v hv ↦ hkeeps _ _ _ (h.votes hrole v hv)
  quorum := h.quorum
  sent := fun m hm ↦ (h.sent m hm).mono hkeeps

lemma quiet (h : s.Backed cast) (hquiet : Quiet s t) : t.Backed cast := by
  have hrole : t.role ≠ .follower → t.role = s.role := hquiet.role.resolve_right
  have hself : t.self = s.self := congrArg NodeConfig.selfId hquiet.cfg
  have hconfig : t.currentConfig = s.currentConfig := by
    rw [currentConfig, currentConfig, hquiet.chain, hquiet.cfgIdx]
  refine ⟨fun hne ↦ ?_, fun hne v hv ↦ ?_, fun hleader ↦ ?_, fun m hm ↦ ?_⟩
  · rw [hquiet.votes]
    exact h.nodup (hrole hne ▸ hne)
  · rw [hquiet.votes] at hv
    rw [hquiet.term, hself]
    exact h.votes (hrole hne ▸ hne) v hv
  · have hsame : t.role = s.role := hrole (by rw [hleader]; decide)
    have hcount := h.quorum (hsame ▸ hleader)
    rw [Node.quorum, configVotes] at hcount ⊢
    simp only [inCurrentConfig] at hcount ⊢
    rwa [hquiet.chain, hquiet.cfg, hconfig, hquiet.votes]
  · exact (hquiet.sent m hm).elim (h.sent m) RaftMsg.Neutral.backed

lemma sendTo (h : s.Backed cast) (hm : m.Backed cast) : (s.sendTo m).Backed cast :=
  { h with sent := forall_mem_append.mpr ⟨h.sent, forall_mem_singleton.mpr { hm with }⟩ }

lemma maybeStepDown (h : s.Backed cast) (term : ℕ) : (s.maybeStepDown term).Backed cast := by
  rw [Node.maybeStepDown]
  split_ifs
  · exact
      { nodup := fun hrole ↦ absurd rfl hrole
        votes := fun hrole ↦ absurd rfl hrole
        quorum := fun hrole ↦ by cases hrole
        sent := h.sent }
  · exact h

end Backed

lemma sameSeat_maybeStepDown (s : Node) (term : ℕ) : SameSeat s (s.maybeStepDown term) := by
  rw [maybeStepDown]
  split_ifs
  · exact ⟨rfl, rfl, rfl, rfl⟩
  · exact .refl s

lemma quiet_becomeLeader (hsnap : s.snapState.length = s.snapBase) (hidx : s.cfgIdx = 0) :
    Quiet s.leaderStart s.becomeLeader := by
  have hbeaten : Quiet s.leaderStart s.leaderStart.broadcastAppend :=
    quiet_broadcastAppend (s := s.leaderStart) hsnap
  rw [becomeLeader, if_neg]
  · exact hbeaten.trans (quiet_maybeCommitConfig _)
  · rw [hbeaten.cfgIdx.trans hidx]
    exact Nat.not_lt_zero _

lemma Backed.becomeLeader (h : s.Backed cast) (hrole : s.role = .candidate)
    (hquorum : s.quorum ≤ s.configVotes) (hsnap : s.snapState.length = s.snapBase)
    (hidx : s.cfgIdx = 0) :
    s.becomeLeader.Backed cast ∧ SameSeat s s.becomeLeader := by
  have hcandidate : s.role ≠ .follower := by rw [hrole]; decide
  have hstart : s.leaderStart.Backed cast :=
    { nodup := fun _ ↦ h.nodup hcandidate
      votes := fun _ ↦ h.votes hcandidate
      quorum := fun _ ↦ hquorum
      sent := h.sent }
  have hseat : SameSeat s s.leaderStart := ⟨rfl, rfl, rfl, rfl⟩
  have hquiet := quiet_becomeLeader hsnap hidx
  exact ⟨hstart.quiet hquiet, hseat.trans hquiet.toSameSeat⟩

lemma Backed.standForElection (h : s.Backed cast)
    (hself : cast s.self (s.currentTerm + 1) = some s.self) : s.standForElection.Backed cast where
  nodup := fun _ ↦ nodup_singleton _
  votes := fun _ v hv ↦ by rwa [mem_singleton.mp hv]
  quorum := fun hrole ↦ by cases hrole
  sent := h.sent

lemma Backed.requestVotes (h : t.Backed cast) (hseat : SameSeat s t) (hself : u.self ≠ kNil)
    (dests : List NodeId) :
    (dests.foldl (fun t d ↦ t.sendTo (u.voteRequest d)) t).Backed cast ∧
      SameSeat s (dests.foldl (fun t d ↦ t.sendTo (u.voteRequest d)) t) := by
  induction dests generalizing t with
  | nil => exact ⟨h, hseat⟩
  | cons d dests ih =>
    have hrequest : (u.voteRequest d).Backed cast :=
      { whole := by simp [Whole, voteRequest]
        noConfig := by simp [voteRequest]
        source := fun _ ↦ hself
        granted := by simp [voteRequest] }
    exact ih (h.sendTo hrequest) (hseat.trans ⟨rfl, rfl, rfl, rfl⟩)

lemma Backed.onElectionTimeout (h : s.Backed cast) (hrecorded : s.onElectionTimeout.Recorded cast)
    (hself : s.self ≠ kNil) (hsnap : s.snapState.length = s.snapBase) (hidx : s.cfgIdx = 0) :
    s.onElectionTimeout.Backed cast ∧ SameSeat s s.onElectionTimeout := by
  generalize hfinal : s.onElectionTimeout = final at hrecorded ⊢
  -- a node that ends with the term and the vote of a candidate has its vote in the ledger
  have hcast : final.core = s.standForElection.core →
      cast s.self (s.currentTerm + 1) = some s.self := by
    intro hcore
    have hvote : final.votedFor = s.self := congrArg Core.vote hcore
    have hterm : final.currentTerm = s.currentTerm + 1 := congrArg Core.term hcore
    have hid : final.self = s.self := congrArg (·.config.selfId) hcore
    have hmine := hrecorded (hvote.trans_ne hself)
    rwa [hvote, hterm, hid] at hmine
  have hstood : SameSeat s s.standForElection := ⟨rfl, rfl, rfl, rfl⟩
  rw [Node.onElectionTimeout] at hfinal
  extract_lets candidate asked at hfinal
  split_ifs at hfinal with hdown hout hrepair hwins <;> subst hfinal
  · exact ⟨h, .refl s⟩
  · exact ⟨h, .refl s⟩
  · exact ⟨h, .refl s⟩
  · have hstands := h.standForElection (hcast s.standForElection.becomeLeader_core)
    obtain ⟨hleads, hseat⟩ := hstands.becomeLeader rfl hwins hsnap hidx
    exact ⟨hleads, hstood.trans hseat⟩
  · have hask : ∀ t d, (Node.sendTo t (asked.voteRequest d)).core = t.core := fun _ _ ↦ rfl
    have hstands := h.standForElection (hcast (foldl_core hask asked.peers asked))
    have hasked : asked.Backed cast := { hstands with }
    have hseat : SameSeat s asked := ⟨rfl, rfl, rfl, rfl⟩
    exact hasked.requestVotes (u := asked) hseat hself asked.peers

lemma Backed.handleRequestVote (h : s.Backed cast) (hm : m.Backed cast)
    (htype : m.type = .requestVote) (hrecorded : (s.handleRequestVote m).Recorded cast) :
    (s.handleRequestVote m).Backed cast ∧ SameSeat s (s.handleRequestVote m) := by
  generalize hfinal : s.handleRequestVote m = final at hrecorded ⊢
  rw [Node.handleRequestVote] at hfinal
  extract_lets checked grant voted at hfinal
  split_ifs at hfinal <;> subst hfinal
  · refine ⟨h.sendTo ?_, rfl, rfl, rfl, rfl⟩
    exact
      { whole := by simp [Whole]
        noConfig := by simp
        source := by simp
        granted := by simp }
  · -- a vote that is granted is the vote the node ends with
    have hvoted : voted.Backed cast ∧ SameSeat s voted ∧
        (grant = true → voted.votedFor = m.source) := by
      by_cases hnew : grant = true ∧ checked.votedFor ≠ m.source
      · rw [show voted = _ from if_pos hnew]
        exact ⟨{ h with }, ⟨rfl, rfl, rfl, rfl⟩, fun _ ↦ rfl⟩
      · rw [show voted = _ from if_neg hnew]
        exact ⟨{ h with }, ⟨rfl, rfl, rfl, rfl⟩, fun hgrant ↦
          not_not.mp fun hne ↦ hnew ⟨hgrant, hne⟩⟩
    obtain ⟨hbacked, hseat, hvote⟩ := hvoted
    refine ⟨hbacked.sendTo ?_, hseat.trans ⟨rfl, rfl, rfl, rfl⟩⟩
    refine
      { whole := by simp [Whole]
        noConfig := by simp
        source := by simp
        granted := fun _ hgrant ↦ ?_ }
    have hmine := hrecorded ((hvote hgrant).trans_ne (hm.source htype))
    exact hmine.trans (congrArg some (hvote hgrant))

lemma Backed.countVote (h : s.Backed cast) (hrole : s.role = .candidate) {v : NodeId}
    (hseen : v ∉ s.votesGranted) (hcast : cast v s.currentTerm = some s.self) :
    { s with votesGranted := s.votesGranted ++ [v] }.Backed cast := by
  have hcandidate : s.role ≠ .follower := by rw [hrole]; decide
  exact
    { h with
      nodup := fun _ ↦
        (h.nodup hcandidate).append (nodup_singleton v) (disjoint_singleton.mpr hseen)
      votes := fun _ ↦
        forall_mem_append.mpr ⟨h.votes hcandidate, forall_mem_singleton.mpr hcast⟩
      quorum := fun hleader ↦ absurd (hrole.symm.trans hleader) (by decide) }

lemma Backed.handleVoteResponse (h : s.Backed cast) (hm : m.Backed cast)
    (htype : m.type = .requestVoteResp) (hdest : m.dest = s.self)
    (hsnap : s.snapState.length = s.snapBase) (hidx : s.cfgIdx = 0) :
    (s.handleVoteResponse m).Backed cast ∧ SameSeat s (s.handleVoteResponse m) := by
  rw [Node.handleVoteResponse]
  by_cases hskip : s.role ≠ .candidate ∨ m.term ≠ s.currentTerm ∨ !m.granted
  · rw [if_pos hskip]
    exact ⟨h, .refl s⟩
  rw [if_neg hskip]
  by_cases hseen : m.source ∈ s.votesGranted
  · rw [if_pos hseen]
    exact ⟨h, .refl s⟩
  extract_lets counted
  simp only [not_or, not_not, Bool.not_eq_true, Bool.not_eq_false'] at hskip
  obtain ⟨hrole, hterm, hgranted⟩ := hskip
  have hcounted : counted.Backed cast :=
    h.countVote hrole hseen (hterm ▸ hdest ▸ hm.granted htype hgranted)
  have hseat : SameSeat s counted := ⟨rfl, rfl, rfl, rfl⟩
  split_ifs with hquorum
  · obtain ⟨hleads, hlead⟩ := hcounted.becomeLeader hrole hquorum hsnap hidx
    exact ⟨hleads, hseat.trans hlead⟩
  · exact ⟨hcounted, hseat⟩

lemma Backed.of_quiet (h : s.Backed cast) (hquiet : Quiet s t) : t.Backed cast ∧ SameSeat s t :=
  ⟨h.quiet hquiet, hquiet.toSameSeat⟩

lemma Backed.handle (h : s.Backed cast) (hm : m.Backed cast) (hdest : m.dest = s.self)
    (hcompacted : s.core.Compacted) (hidx : s.cfgIdx = 0)
    (hrecorded : (s.handle m).Recorded cast) :
    (s.handle m).Backed cast ∧ SameSeat s (s.handle m) := by
  have hsnap : s.snapState.length = s.snapBase := hcompacted.state_len
  rw [Node.handle] at hrecorded ⊢
  cases htype : m.type with
  | requestVote =>
    rw [htype] at hrecorded
    exact h.handleRequestVote hm htype hrecorded
  | requestVoteResp => exact h.handleVoteResponse hm htype hdest hsnap hidx
  | appendEntries => exact h.of_quiet (s.quiet_handleAppendEntries m)
  | appendEntriesResp => exact h.of_quiet (quiet_handleAppendEntriesResp hcompacted m)
  | installSnapshot => exact h.of_quiet (s.quiet_handleInstallSnapshot m)
  | installSnapshotResp => exact h.of_quiet (quiet_handleInstallSnapshotResp hsnap m)
  | configChange => exact absurd htype hm.noConfig
  | configChangeResp => exact h.of_quiet (s.quiet_handleConfigChangeResp m)

lemma Backed.receive (h : s.Backed cast) (hm : m.Backed cast) (hcompacted : s.core.Compacted)
    (hidx : s.cfgIdx = 0) (hrecorded : (s.receive m).Recorded cast) :
    (s.receive m).Backed cast ∧ SameSeat s (s.receive m) := by
  rw [Node.receive] at hrecorded ⊢
  split_ifs at hrecorded ⊢ with htaken
  · have hseat := s.sameSeat_maybeStepDown m.term
    have hdest : m.dest = (s.maybeStepDown m.term).self :=
      htaken.2.2.1.trans (congrArg NodeConfig.selfId hseat.cfg).symm
    obtain ⟨hbacked, hseat'⟩ := (h.maybeStepDown m.term).handle hm hdest
      ((s.evolves_maybeStepDown m.term).compacted hcompacted) (hseat.cfgIdx.trans hidx) hrecorded
    exact ⟨hbacked, hseat.trans hseat'⟩
  · exact ⟨h, .refl s⟩

lemma Backed.timerTick (h : s.Backed cast) (hself : s.self ≠ kNil)
    (hcompacted : s.core.Compacted) (hidx : s.cfgIdx = 0) {heartbeatDue electionDue : Bool}
    (hrecorded : (s.timerTick heartbeatDue electionDue).Recorded cast) :
    (s.timerTick heartbeatDue electionDue).Backed cast ∧
      SameSeat s (s.timerTick heartbeatDue electionDue) := by
  rw [Node.timerTick] at hrecorded ⊢
  split_ifs at hrecorded ⊢
  · exact ⟨h, .refl s⟩
  · exact h.of_quiet (quiet_leaderTick hcompacted.state_len hidx heartbeatDue)
  · exact h.onElectionTimeout hrecorded hself hcompacted.state_len hidx
  · exact ⟨h, .refl s⟩

end Node

end Lockstep.Consensus.RaftA
