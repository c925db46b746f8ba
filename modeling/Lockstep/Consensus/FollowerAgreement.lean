import Lockstep.Consensus.RaftA.Handlers
import Lockstep.Consensus.RaftB.Follower

/-!
# The two implementations agree on log replication

A follower of implementation A and one of implementation B in the same state (`SameFollower`) end in
the same state after the same AppendEntries or InstallSnapshot.
-/

namespace Lockstep.Consensus

open RaftA.Node RaftB RaftB.DurableRecord List

/-! ### What is compared -/

inductive LogRecord
  | entry (index : ℕ) (e : LogEntry)
  | truncate (newLen : ℕ)
  | snapshot (lastIncludedIndex : ℕ) (state : List LogEntry)
  | snapshotDelta (fromBase toBase : ℕ) (delta : List LogEntry)
  deriving DecidableEq

def RaftA.DurableRecord.logRecord? : RaftA.DurableRecord → Option LogRecord
  | .recEntry index e => some (.entry index e)
  | .recTrunc newLen => some (.truncate newLen)
  | .recSnapshot lii state => some (.snapshot lii state)
  | .recSnapshotDelta fromBase toBase delta => some (.snapshotDelta fromBase toBase delta)
  | .recMeta .. | .recConfig .. => none

def RaftB.DurableRecord.logRecord? : DurableRecord → Option LogRecord
  | .entryRecord index e => some (.entry index e)
  | .truncateRecord newLen => some (.truncate newLen)
  | .snapshotRecord lii state => some (.snapshot lii state)
  | .snapshotDeltaRecord fromBase toBase delta => some (.snapshotDelta fromBase toBase delta)
  | .termRecord .. | .configRecord .. => none

def RaftA.Node.logRecords (s : RaftA.Node) : List LogRecord :=
  s.writeQueue.filterMap RaftA.DurableRecord.logRecord?

def RaftB.Node.logRecords (s : Node) : List LogRecord :=
  s.writeQueue.filterMap logRecord?

def RaftA.MsgType.kind : RaftA.MsgType → Kind
  | .requestVote => .requestVote
  | .requestVoteResp => .requestVoteResp
  | .appendEntries => .appendEntries
  | .appendEntriesResp => .appendEntriesResp
  | .installSnapshot => .installSnapshot
  | .installSnapshotResp => .installSnapshotResp
  | .configChange => .configChange
  | .configChangeResp => .configChangeResp

def RaftA.RaftMsg.toMsg (m : RaftA.RaftMsg) : Msg where
  kind := m.type.kind
  term := m.term
  source := m.source
  lastLogIndex := m.lastLogIndex
  lastLogTerm := m.lastLogTerm
  cfgIndex := m.cfgIndex
  configChainIndex := m.configChainIndex
  configMembers := m.configMembers
  granted := m.granted
  success := m.success
  matchIndex := m.matchIndex
  prevLogIndex := m.prevLogIndex
  prevLogTerm := m.prevLogTerm
  leaderCommit := m.leaderCommit
  entries := m.entries
  lastIncludedIndex := m.lastIncludedIndex
  snapState := m.snapState

structure Reply where
  dest : NodeId
  kind : Kind
  term : ℕ
  success : Bool
  matchIndex : ℕ
  deriving DecidableEq

def RaftB.Msg.reply (dest : NodeId) (m : Msg) : Reply where
  dest := dest
  kind := m.kind
  term := m.term
  success := m.success
  matchIndex := m.matchIndex

def RaftA.Node.replies (s : RaftA.Node) : List Reply :=
  s.outbox.map fun m ↦ m.toMsg.reply m.dest

def RaftB.Node.replies (s : Node) : List Reply :=
  s.outbox.map fun sent ↦ sent.2.reply sent.1

variable {a a' a'' : RaftA.Node} {b b' b'' : Node} {m : RaftA.RaftMsg}

/-- The two nodes have the same state, as far as the follower side reads it, and the node of
implementation B runs. -/
structure SameFollower (a : RaftA.Node) (b : Node) : Prop where
  threshold : a.cfg.snapshotThreshold = b.cfg.snapshotThreshold
  term : a.currentTerm = b.currentTerm
  log : a.log = b.log
  base : a.snapBase = b.snapBase
  state : a.snapState = b.snapState
  persisted : a.snapPersistedBase = b.snapPersistedBase
  applied : a.appliedIndex = b.appliedIndex
  commit : a.commitIndex = b.commitIndex
  running : b.running = true

namespace SameFollower

lemma llen_eq (h : SameFollower a b) : a.llen = b.llen := by
  rw [llen, RaftB.Node.llen, h.base, h.log]

lemma termAt_eq (h : SameFollower a b) (i : ℕ) : a.termAt i = b.termAt i := by
  rw [termAt, RaftB.Node.termAt, h.llen_eq, entryAt, h.base, h.state, h.log]
  split_ifs <;> rfl

lemma logOk_eq (h : SameFollower a b) : a.logOk m = b.logOk m.toMsg := by
  rw [logOk, RaftB.Node.logOk, h.llen_eq, h.termAt_eq, decide_eq_decide]
  simp only [RaftA.RaftMsg.toMsg, eq_comm]

end SameFollower

lemma RaftB.Node.firstConflict_of_llen_lt (b : Node) {prevIndex k : ℕ}
    (hlt : b.llen < prevIndex + k) (entries : List LogEntry) :
    b.firstConflict prevIndex k entries = 0 := by
  induction entries generalizing k with
  | nil => rfl
  | cons e entries ih =>
    have hbase : ¬prevIndex + k ≤ b.snapBase := fun hle ↦
      absurd (hle.trans (Nat.le_add_right _ _)) (Nat.not_le.mpr hlt)
    rw [firstConflict, if_neg hbase, if_neg fun hin ↦ absurd hin.1 (Nat.not_le.mpr hlt)]
    exact ih (hlt.trans (Nat.lt_succ_self _))

lemma SameFollower.firstConflict_eq (h : SameFollower a b) (prevIndex k : ℕ)
    (entries : List LogEntry) :
    a.firstConflict prevIndex k entries = b.firstConflict prevIndex k entries := by
  induction entries generalizing k with
  | nil => rfl
  | cons e entries ih =>
    rw [firstConflict, RaftB.Node.firstConflict, h.base, h.llen_eq, h.termAt_eq, ih]
    by_cases hbase : prevIndex + k ≤ b.snapBase
    · rw [if_pos hbase, if_pos hbase]
    rw [if_neg hbase, if_neg hbase]
    by_cases hin : prevIndex + k ≤ b.llen
    · simp [hin]
    · rw [if_neg hin, if_neg fun hboth ↦ hin hboth.1]
      exact (b.firstConflict_of_llen_lt (by omega) entries).symm

/-! ### Matched parts -/

/-- Two nodes have gone on to the same state, with the same log records and the same messages. -/
structure Matched (a : RaftA.Node) (b : Node) (a' : RaftA.Node) (b' : Node) : Prop where
  same : SameFollower a' b'
  written : ∃ records, a'.logRecords = a.logRecords ++ records ∧
    b'.logRecords = b.logRecords ++ records
  replied : ∃ replies, a'.replies = a.replies ++ replies ∧ b'.replies = b.replies ++ replies

namespace Matched

lemma trans (h : Matched a b a' b') (h' : Matched a' b' a'' b'') : Matched a b a'' b'' := by
  obtain ⟨records, ha, hb⟩ := h.written
  obtain ⟨records', ha', hb'⟩ := h'.written
  obtain ⟨replies, hra, hrb⟩ := h.replied
  obtain ⟨replies', hra', hrb'⟩ := h'.replied
  exact
    { same := h'.same
      written := ⟨records ++ records', by rw [ha', ha, append_assoc],
        by rw [hb', hb, append_assoc]⟩
      replied := ⟨replies ++ replies', by rw [hra', hra, append_assoc],
        by rw [hrb', hrb, append_assoc]⟩ }

lemma silent (hsame : SameFollower a' b') (hwritten : a'.logRecords = a.logRecords)
    (hwritten' : b'.logRecords = b.logRecords) (hreplied : a'.replies = a.replies)
    (hreplied' : b'.replies = b.replies) : Matched a b a' b' where
  same := hsame
  written := ⟨[], by rw [hwritten, append_nil], by rw [hwritten', append_nil]⟩
  replied := ⟨[], by rw [hreplied, append_nil], by rw [hreplied', append_nil]⟩

lemma ite {p q : Prop} [Decidable p] [Decidable q] {x y : RaftA.Node} {x' y' : Node}
    (hiff : p ↔ q) (hpos : q → Matched a b x x') (hneg : ¬q → Matched a b y y') :
    Matched a b (if p then x else y) (if q then x' else y') := by
  by_cases hq : q
  · rw [if_pos (hiff.mpr hq), if_pos hq]
    exact hpos hq
  · rw [if_neg (hiff.not.mpr hq), if_neg hq]
    exact hneg hq

lemma record (hsame : SameFollower a b) {r : RaftA.DurableRecord} {r' : DurableRecord}
    {x : LogRecord} (hr : r.logRecord? = some x) (hr' : r'.logRecord? = some x) :
    Matched a b (a.enqueueDurable r) (b.enqueueDurable r') where
  same := { hsame with }
  written := by
    refine ⟨[x], ?_, ?_⟩
    · rw [logRecords, enqueueDurable, filterMap_append]
      exact congrArg (_ ++ ·) (by rw [filterMap_cons, hr]; rfl)
    · rw [RaftB.Node.logRecords, RaftB.Node.enqueueDurable, filterMap_append]
      exact congrArg (_ ++ ·) (by rw [filterMap_cons, hr']; rfl)
  replied := ⟨[], (append_nil _).symm, (append_nil _).symm⟩

lemma reply (hsame : SameFollower a b) {dest : NodeId} {r : RaftA.RaftMsg} {r' : Msg}
    (hr : r.toMsg.reply r.dest = r'.reply dest) :
    Matched a b (a.sendTo r) (b.sendTo dest r') := by
  have hsend : b.sendTo dest r' = { b with outbox := b.outbox ++ [(dest, r')] } :=
    if_pos hsame.running
  rw [hsend]
  refine
    { same := { hsame with }, written := ⟨[], (append_nil _).symm, (append_nil _).symm⟩,
      replied := ⟨[r'.reply dest], ?_, map_append⟩ }
  rw [replies, sendTo, map_append, ← hr]
  rfl

/-! ### The log -/

section

variable (h : SameFollower a b)

include h

lemma maybeStepDown (term : ℕ) : Matched a b (a.maybeStepDown term) (b.maybeStepDown term) := by
  rw [RaftA.Node.maybeStepDown, RaftB.Node.maybeStepDown, h.term]
  by_cases hle : term ≤ b.currentTerm
  · rw [if_neg (Nat.not_lt.mpr hle), if_pos hle]
    exact .silent h rfl rfl rfl rfl
  rw [if_pos (Nat.not_le.mp hle), if_neg hle]
  refine .silent { h with term := rfl } ?_ ?_ rfl rfl
  · simp [logRecords, persistMeta, enqueueDurable, RaftA.DurableRecord.logRecord?]
  · simp [RaftB.Node.logRecords, RaftB.Node.syncNow, RaftB.Node.persistTermVote,
      RaftB.Node.enqueueDurable, logRecord?]

lemma appendAll (entries : List LogEntry) :
    Matched a b (a.appendAll entries) (b.appendAll entries) := by
  induction entries generalizing a b with
  | nil => exact .silent h rfl rfl rfl rfl
  | cons e entries ih =>
    have happend : Matched a b (a.appendEntry e) (b.appendEntry e) :=
      .silent { h with log := congrArg (· ++ [e]) h.log } rfl rfl rfl rfl
    have hllen : (a.appendEntry e).llen = (b.appendEntry e).llen := happend.same.llen_eq
    have hpersist : Matched (a.appendEntry e) (b.appendEntry e)
        ((a.appendEntry e).persistEntry (a.appendEntry e).llen e)
        ((b.appendEntry e).persistEntry (b.appendEntry e).llen e) := by
      rw [hllen]
      exact .record happend.same rfl rfl
    exact (happend.trans hpersist).trans (ih hpersist.same)

lemma truncate (keep : ℕ) : Matched a b ((a.truncateTo keep).persistTrunc keep)
      ((b.truncateTo keep).persistTruncate keep) := by
  have hcut : Matched a b (a.truncateTo keep) (b.truncateTo keep) := by
    refine .silent { h with log := ?_ } rfl rfl rfl rfl
    rw [truncateTo, RaftB.Node.truncateTo, h.log, h.base]
    split_ifs with hlt
    · rw [Nat.max_eq_right hlt.le]
    · rw [Nat.max_eq_left (Nat.le_of_not_lt hlt)]
  exact hcut.trans (.record hcut.same rfl rfl)

lemma mergeEntries : Matched a b (a.mergeEntries m) (b.mergeEntries m.toMsg).1 := by
  have hconflict : a.firstConflict m.prevLogIndex 1 m.entries =
      b.firstConflict m.toMsg.prevLogIndex 1 m.toMsg.entries :=
    h.firstConflict_eq m.prevLogIndex 1 m.entries
  rw [RaftA.Node.mergeEntries, RaftB.Node.mergeEntries, hconflict, h.llen_eq]
  extract_lets keep cut incomingLast already incomingEnd tail keepB tailB
  by_cases hzero : b.firstConflict m.toMsg.prevLogIndex 1 m.toMsg.entries = 0
  · rw [if_neg (not_not.mpr hzero), if_pos hzero, apply_ite Prod.fst]
    exact .ite Iff.rfl (fun _ ↦ appendAll h tail) fun _ ↦ .silent h rfl rfl rfl rfl
  rw [if_pos hzero, if_neg hzero]
  by_cases hcut : keep < b.llen
  · rw [show cut = _ from if_pos hcut, if_pos (show keepB < b.llen from hcut)]
    exact (truncate h keep).trans (appendAll (truncate h keep).same tailB)
  · rw [show cut = _ from if_neg hcut, if_neg (show ¬keepB < b.llen from hcut)]
    exact appendAll h tailB

lemma clearRepair : Matched a b a.clearRepair b := by
  rw [RaftA.Node.clearRepair]
  split_ifs
  · exact .silent { h with } rfl rfl rfl rfl
  · exact .silent h rfl rfl rfl rfl

lemma syncNow (mutated : Bool) : Matched a b a (if mutated then b.syncNow else b) := by
  cases mutated with
  | true => exact .silent { h with } rfl rfl rfl rfl
  | false => exact .silent h rfl rfl rfl rfl

lemma adoptCommit : Matched a b (a.adoptCommit m) (b.adoptCommit m.toMsg) := by
  have hcommit : ∀ c, Matched a b { a with commitIndex := c } { b with commitIndex := c } :=
    fun c ↦ .silent { h with commit := rfl } rfl rfl rfl rfl
  have hkeep : Matched a b a b := .silent h rfl rfl rfl rfl
  rw [RaftA.Node.adoptCommit, RaftB.Node.adoptCommit, h.commit]
  extract_lets nc
  have hnc : nc ≤ m.leaderCommit := by
    by_cases hlt : m.leaderCommit < m.prevLogIndex + m.entries.length
    · exact (if_pos hlt).le
    · exact (if_neg hlt).trans_le (Nat.le_of_not_lt hlt)
  change Matched a b (if b.commitIndex < nc then { a with commitIndex := nc } else a) _
  by_cases hnew : b.commitIndex < nc
  · rw [if_pos hnew, if_pos (show b.commitIndex < m.toMsg.leaderCommit from hnew.trans_le hnc),
      if_pos hnew]
    exact hcommit nc
  · rw [if_neg hnew, if_neg hnew, ite_self]
    exact hkeep

lemma persistSnapshot : Matched a b a.persistSnapshot b.persistSnapshot := by
  have hiff : a.snapBase ≤ a.snapPersistedBase ↔ b.snapBase ≤ b.snapPersistedBase := by
    rw [h.base, h.persisted]
  refine .ite hiff (fun _ ↦ .silent h rfl rfl rfl rfl) fun _ ↦ ?_
  have hwrite : Matched a b
      (a.enqueueDurable (.recSnapshotDelta a.snapPersistedBase a.snapBase
        (a.snapState.drop a.snapPersistedBase)))
      (b.enqueueDurable (.snapshotDeltaRecord b.snapPersistedBase b.snapBase
        (b.snapState.drop b.snapPersistedBase))) :=
    .record h (by rw [h.persisted, h.base, h.state]; rfl) rfl
  exact { hwrite with same := { hwrite.same with persisted := h.base } }

lemma takeSnapshot : Matched a b a.takeSnapshot b.takeSnapshot := by
  rw [RaftA.Node.takeSnapshot, RaftB.Node.takeSnapshot, h.applied, h.base]
  extract_lets take
  refine .ite Iff.rfl (fun _ ↦ .silent h rfl rfl rfl rfl) fun _ ↦ ?_
  have hfold : Matched a b
      ((a.access (decide (b.appliedIndex - b.snapBase ≤ a.log.length))).foldTo b.appliedIndex)
      { b with
        snapState := b.snapState ++ b.log.take take, log := b.log.drop take,
        snapBase := b.appliedIndex } := by
    refine .silent { h with log := ?_, base := rfl, state := ?_ } rfl rfl rfl rfl
    · change a.log.drop (b.appliedIndex - a.snapBase) = b.log.drop take
      rw [h.log, h.base]
    · change a.snapState ++ a.log.take (b.appliedIndex - a.snapBase) = _
      rw [h.state, h.log, h.base]
  have hpersist := hfold.trans (persistSnapshot hfold.same)
  exact { hpersist with same := { hpersist.same with } }

lemma applyAndMaybeSnapshot : Matched a b a.applyAndMaybeSnapshot b.applyAndMaybeSnapshot := by
  rw [RaftA.Node.applyAndMaybeSnapshot, RaftB.Node.applyAndMaybeSnapshot]
  have happly : Matched a b
      (if a.appliedIndex < a.commitIndex then { a with appliedIndex := a.commitIndex } else a)
      (if b.appliedIndex < b.commitIndex then { b with appliedIndex := b.commitIndex } else b) := by
    rw [h.applied, h.commit]
    exact .ite Iff.rfl
      (fun _ ↦ .silent { h with applied := rfl, commit := rfl } rfl rfl rfl rfl)
      fun _ ↦ .silent h rfl rfl rfl rfl
  generalize (if a.appliedIndex < a.commitIndex then { a with appliedIndex := a.commitIndex }
    else a) = aApplied at happly ⊢
  generalize (if b.appliedIndex < b.commitIndex then { b with appliedIndex := b.commitIndex }
    else b) = bApplied at happly ⊢
  have hsame := happly.same
  have hiff : (aApplied.snapBase < aApplied.appliedIndex ∧
      aApplied.cfg.snapshotThreshold < aApplied.log.length) ↔
      (bApplied.snapBase < bApplied.appliedIndex ∧
        bApplied.cfg.snapshotThreshold < bApplied.log.length) := by
    rw [hsame.base, hsame.applied, hsame.threshold, hsame.log]
  exact .ite hiff (fun _ ↦ happly.trans (takeSnapshot hsame)) fun _ ↦ happly

end

/-! ### The handlers -/

lemma replyAppend (h : SameFollower a b) (success : Bool) (matched : ℕ) :
    Matched a b (a.sendTo (a.appendResp m success matched))
      (b.replyAppend m.toMsg.source success matched) := by
  refine .reply h ?_
  simp only [appendResp, RaftA.RaftMsg.toMsg, RaftA.MsgType.kind, RaftB.Msg.reply, h.term]

lemma handleAppendEntries (h : SameFollower a b) :
    Matched a b (a.handleAppendEntries m) (b.onAppendEntries m.toMsg) := by
  rw [RaftA.Node.handleAppendEntries, RaftB.Node.onAppendEntries]
  extract_lets follower checked scanned merged adopted followerB mergedB syncedB adoptedB
  rw [h.term]
  refine .ite Iff.rfl (fun _ ↦ replyAppend h false 0) fun _ ↦ ?_
  have hfollows : Matched a b checked followerB := .silent { h with } rfl rfl rfl rfl
  rw [hfollows.same.logOk_eq]
  refine .ite Iff.rfl (fun _ ↦ hfollows.trans (replyAppend hfollows.same false 0)) fun _ ↦ ?_
  have hscanned : Matched a b scanned followerB := .silent { h with } rfl rfl rfl rfl
  have hmerged : Matched a b merged mergedB.1 := by
    have hmerge := hscanned.trans (mergeEntries (m := m) hscanned.same)
    exact hmerge.trans (clearRepair hmerge.same)
  have hsynced : Matched a b merged syncedB := hmerged.trans (syncNow hmerged.same mergedB.2)
  have hadopted : Matched a b adopted adoptedB := by
    have hcommit := hsynced.trans (adoptCommit (m := m) hsynced.same)
    exact hcommit.trans (applyAndMaybeSnapshot hcommit.same)
  exact hadopted.trans (replyAppend hadopted.same true (m.prevLogIndex + m.entries.length))

lemma adoptSnapshot (h : SameFollower a b) :
    Matched a b (a.adoptSnapshot m) (b.adoptSnapshot m.toMsg) := by
  have hcommit : max a.commitIndex m.lastIncludedIndex =
      if b.commitIndex < m.lastIncludedIndex then m.lastIncludedIndex else b.commitIndex := by
    rw [h.commit]
    split_ifs with hlt
    · exact Nat.max_eq_right hlt.le
    · exact Nat.max_eq_left (Nat.le_of_not_lt hlt)
  have hreplaced : SameFollower
      { a with
        snapState := m.snapState, snapBase := m.lastIncludedIndex,
        appliedIndex := m.lastIncludedIndex, commitIndex := max a.commitIndex m.lastIncludedIndex,
        log := [] }
      { b with
        snapState := m.snapState
        snapBase := m.lastIncludedIndex
        appliedIndex := m.lastIncludedIndex
        commitIndex :=
          if b.commitIndex < m.lastIncludedIndex then m.lastIncludedIndex else b.commitIndex
        log := [] } :=
    { h with log := rfl, base := rfl, state := rfl, applied := rfl, commit := hcommit }
  have hwritten := Matched.record hreplaced
    (r := .recSnapshot m.lastIncludedIndex m.snapState) rfl
    (show (snapshotRecord m.lastIncludedIndex m.snapState).logRecord? = _
      from rfl)
  exact
    { same := { hwritten.same with persisted := rfl }, written := hwritten.written,
      replied := hwritten.replied }

lemma handleInstallSnapshot (h : SameFollower a b) :
    Matched a b (a.handleInstallSnapshot m) (b.onInstallSnapshot m.toMsg) := by
  rw [RaftA.Node.handleInstallSnapshot, RaftB.Node.onInstallSnapshot]
  extract_lets follower installed cleared followerB installedB
  rw [h.term]
  refine .ite Iff.rfl (fun _ ↦ .silent h rfl rfl rfl rfl) fun _ ↦ ?_
  have hfollows : Matched a b follower followerB := .silent { h with } rfl rfl rfl rfl
  have hiff : follower.adoptsSnapshot m = true ↔
      followerB.snapBase < m.toMsg.lastIncludedIndex ∧
        followerB.commitIndex < m.toMsg.lastIncludedIndex := by
    rw [adoptsSnapshot, decide_eq_true_iff, hfollows.same.base, hfollows.same.commit]
    rfl
  have hinstalled : Matched a b installed installedB :=
    .ite hiff (fun _ ↦ hfollows.trans (adoptSnapshot hfollows.same)) fun _ ↦ hfollows
  have hcleared : Matched a b cleared installedB := hinstalled.trans (clearRepair hinstalled.same)
  refine hcleared.trans (.reply hcleared.same ?_)
  have hmatch : max cleared.snapBase m.lastIncludedIndex =
      if m.toMsg.lastIncludedIndex < installedB.snapBase then installedB.snapBase
      else m.toMsg.lastIncludedIndex := by
    rw [hcleared.same.base]
    split_ifs with hlt
    · exact Nat.max_eq_left (le_of_lt hlt)
    · exact Nat.max_eq_right (Nat.le_of_not_lt hlt)
  simp only [RaftA.RaftMsg.toMsg, RaftA.MsgType.kind, RaftB.Msg.reply, hcleared.same.term]
    at hmatch ⊢
  rw [hmatch]

end Matched

/-- Two followers in the same state that handle the same AppendEntries or InstallSnapshot end in the
same state, have enqueued the same log records and sent the same replies. -/
theorem followers_agree (h : SameFollower a b) (m : RaftA.RaftMsg) :
    Matched a b ((a.maybeStepDown m.term).handleAppendEntries m)
        ((b.maybeStepDown m.toMsg.term).onAppendEntries m.toMsg) ∧
      Matched a b ((a.maybeStepDown m.term).handleInstallSnapshot m)
        ((b.maybeStepDown m.toMsg.term).onInstallSnapshot m.toMsg) := by
  have hdown := Matched.maybeStepDown h m.term
  exact ⟨hdown.trans (.handleAppendEntries hdown.same),
    hdown.trans (.handleInstallSnapshot hdown.same)⟩

def sampleFollowerA : RaftA.Node :=
  { create { selfId := 2, cluster := [1, 2, 3], snapshotThreshold := 1 } with
    currentTerm := 1,
    log := [{ term := 1, value := [98] }, { term := 1, value := [99] }], snapBase := 1,
    snapState := [{ term := 1, value := [97] }], snapPersistedBase := 1, appliedIndex := 1,
    commitIndex := 1, running := true }

def sampleFollowerB : Node where
  cfg := { selfId := 2, cluster := [1, 2, 3], snapshotThreshold := 1 }
  currentTerm := 1
  log := [{ term := 1, value := [98] }, { term := 1, value := [99] }]
  snapBase := 1
  snapState := [{ term := 1, value := [97] }]
  snapPersistedBase := 1
  appliedIndex := 1
  commitIndex := 1
  running := true

def conflictingBatch : RaftA.RaftMsg where
  type := .appendEntries
  term := 2
  source := 3
  dest := 2
  leaderCommit := 2
  entries := [{ term := 1, value := [97] }, { term := 1, value := [98] },
    { term := 2, value := [100] }]

theorem followers_agree_conflictingBatch :
    ((sampleFollowerA.maybeStepDown 2).handleAppendEntries conflictingBatch).logRecords =
        [.truncate 2, .entry 3 { term := 2, value := [100] },
          .snapshotDelta 1 2 [{ term := 1, value := [98] }]] ∧
      Matched sampleFollowerA sampleFollowerB
        ((sampleFollowerA.maybeStepDown 2).handleAppendEntries conflictingBatch)
        ((sampleFollowerB.maybeStepDown 2).onAppendEntries conflictingBatch.toMsg) :=
  ⟨by decide, (followers_agree ⟨rfl, rfl, rfl, rfl, rfl, rfl, rfl, rfl, rfl⟩ conflictingBatch).1⟩

end Lockstep.Consensus
