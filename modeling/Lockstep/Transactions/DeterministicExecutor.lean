import Lockstep.Storage.WalOnly
import Lockstep.Transactions.IndependentExecutor

/-!
# The engine executor

The first executor (`txn/DeterministicExecutor.hpp`) applies the writes to a storage engine and
keeps a table of snapshots: the sequence number of the engine after each commit.
-/

namespace Lockstep.Transactions.DeterministicExecutor

open Library Storage IndependentExecutor WalEngine HistoryLog List

/-- The engine, the version at which each session last wrote each key, and the sequence number of
the engine after each number of commits. -/
structure Apply where
  engine : WalEngine
  sessionLastWrite : ℕ × Key → Option ℕ := fun _ ↦ none
  commitSnap : List ℕ := [kNoSeq]
  nextCommitVersion : ℕ := 0

def readPrefix (cfg : ExecConfig) (a : Apply) (l : ReadLoop) (r : Read) : ℕ × ReadLoop :=
  let serial := a.nextCommitVersion
  match r.level with
  | .strictSerializable => (serial, l)
  | .snapshot =>
    let l :=
      if !l.snapshotFixed then
        { l with
          snapshotVersion :=
            if r.snapshotVersion ≠ kNoSeq ∧ r.snapshotVersion ≤ serial then r.snapshotVersion
            else serial
          snapshotFixed := true }
      else l
    (l.snapshotVersion, l)
  | .boundedStaleness =>
    let lag := cfg.replicaLag
    (if serial > lag then serial - lag else 0, l)
  | .readYourWrites =>
    match a.sessionLastWrite (r.session, r.key) with
    | some own => (if serial < own then own else serial, l)
    | none => (serial, l)

def serveRead (cfg : ExecConfig) (a : Apply) (t : Txn) (l : ReadLoop) (r : Read) : ReadLoop :=
  let (version, l) := readPrefix cfg a l r
  l.serve t r version (a.engine.get r.key (a.commitSnap.getD version kNoSeq))

def serveReads (cfg : ExecConfig) (a : Apply) (t : Txn) : ReadLoop :=
  t.declaredReads.foldl (serveRead cfg a t) { snapshotVersion := a.nextCommitVersion }

def putAll (engine : WalEngine) (writes : WriteSet) : WalEngine :=
  writes.entries.foldl (fun engine kv ↦ engine.put kv.1 kv.2) engine

def applyCommit (a : Apply) (t : Txn) (writes : WriteSet) : Apply :=
  let engine := putAll a.engine writes
  let version := a.nextCommitVersion + 1
  { engine := engine, sessionLastWrite := noteSessionWrites t writes version a.sessionLastWrite,
    commitSnap := a.commitSnap ++ [engine.lastSeq], nextCommitVersion := version }

def backend : Backend Apply where
  init := { engine := walOnly Script.honest }
  serve cfg a t := ((serveReads cfg a t).reads, (serveReads cfg a t).served)
  commit a t writes := (a.nextCommitVersion + 1, a.nextCommitVersion + 1, applyCommit a t writes)
  tip a := a.nextCommitVersion

def submitBatch (batch : List Txn) (cfg : ExecConfig) : RunResult :=
  Transactions.submitBatch backend batch cfg

variable {e : WalEngine}

lemma get_of_lastSeq_le (h : e.WalOnly) (k : Key) {at_ : ℕ}
    (hle : e.lastSeq ≤ at_) : e.get k at_ = e.get k e.lastSeq := by
  rw [h.get_eq, h.get_eq, seenAt, seenAt]
  congr 2
  refine filter_congr fun v hv ↦ decide_eq_decide.mpr ?_
  exact and_congr_right fun _ ↦ ⟨fun _ ↦ h.seq_le v hv, fun hseq ↦ hseq.trans hle⟩

lemma putEntries_spec (h : e.WalOnly) (entries : List (Key × Value)) :
    (entries.foldl (fun e kv ↦ e.put kv.1 kv.2) e).WalOnly ∧
      e.lastSeq ≤ (entries.foldl (fun e kv ↦ e.put kv.1 kv.2) e).lastSeq ∧
      (∀ k at_, at_ ≤ e.lastSeq →
        (entries.foldl (fun e kv ↦ e.put kv.1 kv.2) e).get k at_ = e.get k at_) ∧
      ∀ k, (entries.foldl (fun e kv ↦ e.put kv.1 kv.2) e).get k
          (entries.foldl (fun e kv ↦ e.put kv.1 kv.2) e).lastSeq =
        entries.foldl (fun found kv ↦ if kv.1 = k then some kv.2 else found)
          (e.get k e.lastSeq) := by
  induction entries generalizing e with
  | nil => exact ⟨h, le_rfl, fun _ _ _ ↦ rfl, fun _ ↦ rfl⟩
  | cons kv entries ih =>
    have hput : (e.put kv.1 kv.2).WalOnly := h.commit kv.1 kv.2 false
    have hlast : (e.put kv.1 kv.2).lastSeq = e.lastSeq + 1 := h.lastSeq_commit kv.1 kv.2 false
    obtain ⟨hwal, hle, hold, hnew⟩ := ih hput
    rw [hlast] at hle hold
    refine ⟨hwal, (Nat.le_succ _).trans hle, fun k at_ hat ↦ ?_, fun k ↦ ?_⟩
    · rw [foldl_cons, hold k at_ (hat.trans (Nat.le_succ _)), put, h.get_commit,
        if_neg fun hvisible ↦ absurd hvisible.2 (Nat.not_lt.mpr hat)]
    rw [foldl_cons, hnew k, foldl_cons, hlast]
    congr 1
    rw [put, h.get_commit]
    by_cases hk : kv.1 = k
    · rw [if_pos hk, if_pos ⟨hk.symm, Nat.lt_succ_self _⟩]
      rfl
    · rw [if_neg hk, if_neg fun hvisible ↦ hk hvisible.1.symm]
      exact get_of_lastSeq_le h k (Nat.le_succ _)

lemma putAll_spec (h : e.WalOnly) (writes : WriteSet) :
    (putAll e writes).WalOnly ∧ e.lastSeq ≤ (putAll e writes).lastSeq ∧
      (∀ k at_, at_ ≤ e.lastSeq → (putAll e writes).get k at_ = e.get k at_) ∧
      ∀ k, (putAll e writes).get k (putAll e writes).lastSeq =
        (writes.find k).or (e.get k e.lastSeq) := by
  obtain ⟨hwal, hle, hold, hnew⟩ := putEntries_spec h writes.entries
  refine ⟨hwal, hle, hold, fun k ↦ ?_⟩
  rw [← writes.foldl_entries_eq]
  refine (hnew k).trans (congrArg (fun f ↦ foldl f _ writes.entries) ?_)
  funext found kv
  congr

/-! ### The history behind the engine -/

open IndependentExecutor (HistoryLog)

/-- The engine at each snapshot of the table holds what the history gives up to there. -/
structure Follows (a : Apply) (log : HistoryLog) : Prop where
  walOnly : a.engine.WalOnly
  count : a.nextCommitVersion = log.entries.length
  snaps : a.commitSnap.length = log.entries.length + 1
  last : a.commitSnap.getD log.entries.length kNoSeq = a.engine.lastSeq
  snap_le : ∀ p ≤ log.entries.length, a.commitSnap.getD p kNoSeq ≤ a.engine.lastSeq
  reads : ∀ p ≤ log.entries.length, ∀ k,
    a.engine.get k (a.commitSnap.getD p kNoSeq) = log.valueAtPrefix k p
  sessions : a.sessionLastWrite = log.sessionLastWrite
  own : ∀ key version, log.sessionLastWrite key = some version →
    version ≠ kNoSeq ∧ version ≤ log.entries.length

namespace Follows

variable {a : Apply} {log : HistoryLog} {cfg : ExecConfig}

lemma start : Follows { engine := WalEngine.walOnly Script.honest } {} where
  walOnly := WalEngine.WalOnly.start _
  count := rfl
  snaps := rfl
  last := rfl
  snap_le p hp := by
    obtain rfl : p = 0 := Nat.le_zero.mp hp
    exact le_rfl
  reads p hp k := by
    obtain rfl : p = 0 := Nat.le_zero.mp hp
    rfl
  sessions := rfl
  own := nofun

lemma readPrefix_eq (h : Follows a log) {l : ReadLoop}
    (hl : l.snapshotVersion ≤ log.entries.length) (r : Read) :
    readPrefix cfg a l r = choosePrefix r log.commitCount cfg log l ∧
      (readPrefix cfg a l r).1 ≤ log.entries.length ∧
      (readPrefix cfg a l r).2.snapshotVersion ≤ log.entries.length := by
  unfold readPrefix choosePrefix commitCount
  rw [h.count]
  cases hlevel : r.level with
  | strictSerializable => exact ⟨rfl, le_rfl, hl⟩
  | snapshot =>
    refine ⟨rfl, ?_⟩
    dsimp only
    split_ifs with hfixed hversion
    · exact ⟨hversion.2, hversion.2⟩
    · exact ⟨le_rfl, le_rfl⟩
    · exact ⟨hl, hl⟩
  | boundedStaleness =>
    refine ⟨rfl, ?_, hl⟩
    dsimp only
    split_ifs
    · exact Nat.sub_le _ _
    · exact Nat.zero_le _
  | readYourWrites =>
    dsimp only [lastWriteOf]
    rw [h.sessions]
    cases hown : log.sessionLastWrite (r.session, r.key) with
    | none => exact ⟨rfl, le_rfl, hl⟩
    | some own =>
      -- A session's own write is never later than the commits there are.
      obtain ⟨-, hle⟩ := h.own _ own hown
      dsimp only [Option.getD_some]
      rw [if_neg (Nat.not_lt.mpr hle), if_neg fun hlater ↦ absurd hlater.2 (Nat.not_lt.mpr hle)]
      exact ⟨rfl, le_rfl, hl⟩

lemma serveReads_eq (h : Follows a log) (t : Txn) :
    serveReads cfg a t = IndependentExecutor.serveReads cfg log t := by
  have hfold : ∀ (reads : List Read) (l : ReadLoop), l.snapshotVersion ≤ log.entries.length →
      reads.foldl (serveRead cfg a t) l =
        reads.foldl (IndependentExecutor.serveRead cfg log t) l := by
    intro reads
    induction reads with
    | nil => exact fun _ _ ↦ rfl
    | cons r reads ih =>
      intro l hl
      obtain ⟨hchoice, hle, hsnapshot⟩ := @readPrefix_eq a log cfg h l hl r
      have hserve : serveRead cfg a t l r = IndependentExecutor.serveRead cfg log t l r := by
        rw [serveRead, IndependentExecutor.serveRead, ← hchoice]
        dsimp only
        rw [h.reads _ hle]
      rw [foldl_cons, foldl_cons, hserve]
      refine ih _ ?_
      rw [← hserve]
      exact hsnapshot
  rw [serveReads, IndependentExecutor.serveReads, commitCount, h.count]
  exact hfold _ _ le_rfl

lemma getD_concat {snaps : List ℕ} {count : ℕ} (hlength : snaps.length = count + 1)
    (last : ℕ) {p : ℕ} :
    (p ≤ count → (snaps ++ [last]).getD p kNoSeq = snaps.getD p kNoSeq) ∧
      (snaps ++ [last]).getD (count + 1) kNoSeq = last := by
  rw [getD_eq_getElem?_getD, getD_eq_getElem?_getD, getD_eq_getElem?_getD]
  constructor
  · intro hp
    rw [getElem?_append_left (by omega)]
  · rw [← hlength, getElem?_concat_length]
    rfl

lemma noteSessionWrites_le (t : Txn) (writes : WriteSet) (version : ℕ)
    {last : ℕ × Key → Option ℕ} {bound : ℕ} (hbound : version ≠ kNoSeq ∧ version ≤ bound)
    (hlast : ∀ key v, last key = some v → v ≠ kNoSeq ∧ v ≤ bound) :
    ∀ key v, noteSessionWrites t writes version last key = some v → v ≠ kNoSeq ∧ v ≤ bound := by
  have hinner : ∀ (session : ℕ) (entries : List (Key × Value)) (last : ℕ × Key → Option ℕ),
      (∀ key v, last key = some v → v ≠ kNoSeq ∧ v ≤ bound) →
      ∀ key v, entries.foldl
        (fun last kv ↦ Function.update last (session, kv.1) (some version)) last key = some v →
        v ≠ kNoSeq ∧ v ≤ bound := by
    intro session entries
    induction entries with
    | nil => exact fun _ hlast ↦ hlast
    | cons kv entries ih =>
      intro last hlast
      refine ih _ fun key v hv ↦ ?_
      dsimp only at hv
      rw [Function.update_apply] at hv
      split_ifs at hv with hkey
      · exact Option.some.inj hv ▸ hbound
      · exact hlast key v hv
  rw [noteSessionWrites]
  generalize t.declaredReads = reads
  induction reads generalizing last with
  | nil => exact hlast
  | cons r reads ih =>
    rw [foldl_cons]
    refine ih ?_
    split_ifs
    · exact hinner r.session writes.entries last hlast
    · exact hlast

lemma commit (h : Follows a log) (t : Txn) (writes : WriteSet) :
    Follows (applyCommit a t writes) (log.append t writes).2 := by
  obtain ⟨hwal, hle, hold, hnew⟩ := putAll_spec h.walOnly writes
  have hlength : (log.append t writes).2.entries.length = log.entries.length + 1 := by
    rw [append, length_append]
    rfl
  have htable := fun p ↦ @getD_concat a.commitSnap log.entries.length h.snaps
    (putAll a.engine writes).lastSeq p
  refine ⟨hwal, ?_, ?_, ?_, fun p hp ↦ ?_, fun p hp k ↦ ?_, ?_, ?_⟩
  · rw [hlength, ← h.count]
    rfl
  · rw [hlength, ← h.snaps]
    exact length_append
  · rw [hlength]
    exact (htable 0).2
  · rw [hlength] at hp
    rcases Nat.lt_or_eq_of_le hp with hlt | rfl
    · refine le_of_eq_of_le ((htable p).1 (Nat.le_of_lt_succ hlt)) ?_
      exact (h.snap_le p (Nat.le_of_lt_succ hlt)).trans hle
    · exact (htable 0).2.le
  · rw [hlength] at hp
    rcases Nat.lt_or_eq_of_le hp with hlt | rfl
    · have hp := Nat.le_of_lt_succ hlt
      rw [log.valueAtPrefix_append t writes k hp, ← h.reads p hp, ← hold k _ (h.snap_le p hp)]
      exact congrArg _ ((htable p).1 hp)
    · rw [log.valueAtPrefix_append_last, ← h.reads _ le_rfl, h.last, ← hnew]
      exact congrArg _ (htable 0).2
  · rw [applyCommit, append, h.sessions, h.count]
  · rw [hlength]
    refine noteSessionWrites_le t writes _ ⟨Nat.succ_ne_zero _, le_rfl⟩ fun key v hv ↦ ?_
    exact (h.own key v hv).imp_right fun hle ↦ hle.trans (Nat.le_succ _)

end Follows

lemma simulates_independent (cfg : ExecConfig) :
    backend.Simulates IndependentExecutor.backend cfg (fun _ ↦ True) Follows where
  init := Follows.start
  serve a log t h _ := by
    rw [backend, IndependentExecutor.backend]
    dsimp only
    rw [h.serveReads_eq]
  commit a log t writes h _ := by
    have hversion : a.nextCommitVersion + 1 = log.entries.length + 1 := by rw [h.count]
    exact ⟨hversion, hversion, h.commit t writes⟩
  tip a log h := h.count

end Lockstep.Transactions.DeterministicExecutor
