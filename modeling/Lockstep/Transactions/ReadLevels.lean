import Lockstep.Transactions.Checkers
import Lockstep.Transactions.DeterministicExecutor

/-!
# What the read levels promise

Every read names a level, and each level promises something about the number of commits the read is
served from. The executor over the engine keeps all of it but the bound on the staleness of a read:
it serves such reads as far behind as the replica lags, whatever bound the read gives.
-/

namespace Lockstep.Transactions.ReadLevels

open Library WorkQueue DeterministicExecutor List
open IndependentExecutor (HistoryLog)

def InSession (c : CommitInfo) (session : ℕ) : Prop :=
  session ≠ 0 ∧ ∃ s ∈ c.servedReads, s.level = .readYourWrites ∧ s.session = session

/-- The reads of a commit keep what their levels promise, in a history of commits in which some
number of them came before. -/
structure KeepsLevels (seq : List CommitInfo) (serial : ℕ) (c : CommitInfo) : Prop where
  value : ∀ s ∈ c.servedReads, s.value = valueAfterPrefix seq s.key s.servedVersion
  strict : ∀ s ∈ c.servedReads, s.level = .strictSerializable → s.servedVersion = serial
  snapshot : ∃ version ≤ serial, ∀ s ∈ c.servedReads, s.level = .snapshot →
    s.servedVersion = version
  bounded : ∀ s ∈ c.servedReads, s.level = .boundedStaleness →
    serial - s.maxLag ≤ s.servedVersion
  own : ∀ s ∈ c.servedReads, s.level = .readYourWrites → ∀ j < serial, ∀ d, seq[j]? = some d →
    InSession d s.session → (d.writesCommitted.find s.key).isSome → j + 1 ≤ s.servedVersion

/-- If the transaction commits, the replica does not lag further behind than each of its reads of
bounded staleness allows. -/
def LagFits (cfg : ExecConfig) (s : Apply × List CommitInfo) (p : Pending) : Prop :=
  Commits backend cfg s.1 p.txn → ∀ r ∈ p.txn.declaredReads, r.level = .boundedStaleness →
    cfg.replicaLag ≤ r.maxLag ∨ s.1.nextCommitVersion ≤ r.maxLag

instance (cfg : ExecConfig) (s : Apply × List CommitInfo) (p : Pending) :
    Decidable (LagFits cfg s p) := inferInstanceAs (Decidable (_ → _))

/-! ### The reads of an attempt -/

def versionFor (cfg : ExecConfig) (serial snapshotVersion : ℕ) : Level → ℕ
  | .strictSerializable => serial
  | .snapshot => snapshotVersion
  | .boundedStaleness => serial - cfg.replicaLag
  | .readYourWrites => serial

structure ServedFrom (cfg : ExecConfig) (log : HistoryLog) (l : ReadLoop) : Prop where
  snapshot_le : l.snapshotVersion ≤ log.entries.length
  unfixed : l.snapshotFixed = false → ∀ s ∈ l.served, s.level ≠ .snapshot
  value : ∀ s ∈ l.served, s.value = log.valueAtPrefix s.key s.servedVersion
  version : ∀ s ∈ l.served,
    s.servedVersion = versionFor cfg log.entries.length l.snapshotVersion s.level

variable {cfg : ExecConfig} {a : Apply} {log : HistoryLog} {l : ReadLoop} {t : Txn}

lemma versionFor_le (hle : l.snapshotVersion ≤ log.entries.length) (level : Level) :
    versionFor cfg log.entries.length l.snapshotVersion level ≤ log.entries.length := by
  cases level with
  | strictSerializable => exact le_rfl
  | snapshot => exact hle
  | boundedStaleness => exact Nat.sub_le _ _
  | readYourWrites => exact le_rfl

lemma readPrefix_spec (h : Follows a log) (hl : ServedFrom cfg log l) (r : Read) :
    ServedFrom cfg log (readPrefix cfg a l r).2 ∧
      (readPrefix cfg a l r).2.served = l.served ∧
      (r.level = .snapshot → (readPrefix cfg a l r).2.snapshotFixed = true) ∧
      (readPrefix cfg a l r).1 =
        versionFor cfg log.entries.length (readPrefix cfg a l r).2.snapshotVersion r.level := by
  unfold readPrefix
  rw [h.count]
  cases hlevel : r.level with
  | strictSerializable => exact ⟨hl, rfl, nofun, rfl⟩
  | snapshot =>
    dsimp only
    by_cases hfixed : l.snapshotFixed = false
    · rw [hfixed, Bool.not_false, if_pos rfl]
      refine ⟨⟨?_, nofun, hl.value, fun s hs ↦ ?_⟩, rfl, fun _ ↦ rfl, rfl⟩
      · dsimp only
        split_ifs with hversion
        · exact hversion.2
        · exact le_rfl
      · -- No snapshot read was served before, so no version served depends on the choice.
        have hne := hl.unfixed hfixed s hs
        rw [hl.version s hs]
        cases hs : s.level with
        | strictSerializable => rfl
        | snapshot => exact absurd hs hne
        | boundedStaleness | readYourWrites => rfl
    · rw [if_neg (by simpa using hfixed)]
      exact ⟨hl, rfl, fun _ ↦ by simpa using hfixed, rfl⟩
  | boundedStaleness =>
    refine ⟨hl, rfl, nofun, ?_⟩
    dsimp only [versionFor]
    split_ifs
    · rfl
    · omega
  | readYourWrites =>
    dsimp only
    rw [h.sessions]
    cases hown : log.sessionLastWrite (r.session, r.key) with
    | none => exact ⟨hl, rfl, nofun, rfl⟩
    | some own =>
      have hle := (h.own _ own hown).2
      dsimp only
      rw [if_neg (Nat.not_lt.mpr hle)]
      exact ⟨hl, rfl, nofun, rfl⟩

lemma serveRead_spec (h : Follows a log) (hl : ServedFrom cfg log l) (r : Read) :
    ServedFrom cfg log (serveRead cfg a t l r) ∧
      (serveRead cfg a t l r).served.map (fun s ↦ (s.level, s.maxLag)) =
        l.served.map (fun s ↦ (s.level, s.maxLag)) ++ [(r.level, r.maxLag)] := by
  obtain ⟨hchosen, hserved, hfixed, hversion⟩ := readPrefix_spec h hl r
  have hle := @versionFor_le cfg log _ hchosen.snapshot_le r.level
  rw [← hversion] at hle
  rw [serveRead]
  dsimp only
  refine ⟨⟨hchosen.snapshot_le, fun hno ↦ forall_mem_append.mpr ⟨hchosen.unfixed hno, ?_⟩,
    forall_mem_append.mpr ⟨hchosen.value, forall_mem_singleton.mpr (h.reads _ hle r.key)⟩,
    forall_mem_append.mpr ⟨hchosen.version, forall_mem_singleton.mpr hversion⟩⟩, ?_⟩
  · refine forall_mem_singleton.mpr fun hsnapshot ↦ ?_
    cases (hfixed hsnapshot).symm.trans hno
  · rw [ReadLoop.serve, map_append, hserved]
    rfl

lemma serveReads_spec (h : Follows a log) (t : Txn) :
    ServedFrom cfg log (serveReads cfg a t) ∧
      (serveReads cfg a t).served.map (fun s ↦ (s.level, s.maxLag)) =
        t.declaredReads.map fun r ↦ (r.level, r.maxLag) := by
  have hfold : ∀ (reads : List Read) (l : ReadLoop), ServedFrom cfg log l →
      ServedFrom cfg log (reads.foldl (serveRead cfg a t) l) ∧
        (reads.foldl (serveRead cfg a t) l).served.map (fun s ↦ (s.level, s.maxLag)) =
          l.served.map (fun s ↦ (s.level, s.maxLag)) ++
            reads.map fun r ↦ (r.level, r.maxLag) := by
    intro reads
    induction reads with
    | nil => exact fun l hl ↦ ⟨hl, (append_nil _).symm⟩
    | cons r reads ih =>
      intro l hl
      obtain ⟨hnext, hfields⟩ := serveRead_spec (t := t) h hl r
      obtain ⟨hall, hrest⟩ := ih _ hnext
      refine ⟨hall, ?_⟩
      rw [foldl_cons, hrest, hfields, append_assoc]
      rfl
  refine hfold t.declaredReads _ ⟨?_, fun _ ↦ ?_, ?_, ?_⟩
  · exact h.count.le
  all_goals exact nofun

variable {seq : List CommitInfo} {serial : ℕ} {c d : CommitInfo}

def historyOf (seq : List CommitInfo) : List (ℕ × WriteSet) :=
  seq.map fun c ↦ (c.txnId, c.writesCommitted)

lemma valueAtPrefix_historyOf (hlog : log.entries = historyOf seq) (k : Key) (j : ℕ) :
    log.valueAtPrefix k j = valueAfterPrefix seq k j := by
  rw [log.valueAtPrefix_eq, hlog, historyOf, ← map_take, HistoryLog.valueAfter, foldl_map]
  rfl

/-- What the executor always keeps: all of the promises but the bound on the staleness. -/
structure ServesLevels (seq : List CommitInfo) (serial : ℕ) (c : CommitInfo) : Prop where
  le : ∀ s ∈ c.servedReads, s.servedVersion ≤ serial
  value : ∀ s ∈ c.servedReads, s.value = valueAfterPrefix seq s.key s.servedVersion
  strict : ∀ s ∈ c.servedReads, s.level = .strictSerializable → s.servedVersion = serial
  snapshot : ∃ version ≤ serial, ∀ s ∈ c.servedReads, s.level = .snapshot →
    s.servedVersion = version
  own : ∀ s ∈ c.servedReads, s.level = .readYourWrites → s.servedVersion = serial

lemma ServesLevels.append (h : ServesLevels seq serial c) (hserial : serial ≤ seq.length)
    (more : List CommitInfo) : ServesLevels (seq ++ more) serial c where
  le := h.le
  value s hs := by
    rw [valueAfterPrefix_append more s.key ((h.le s hs).trans hserial)]
    exact h.value s hs
  strict := h.strict
  snapshot := h.snapshot
  own := h.own

lemma ServesLevels.keepsLevels_iff (h : ServesLevels seq serial c) :
    KeepsLevels seq serial c ↔ ∀ s ∈ c.servedReads, s.level = .boundedStaleness →
      serial - s.maxLag ≤ s.servedVersion := by
  constructor
  · exact KeepsLevels.bounded
  · intro hbounded
    refine ⟨h.value, h.strict, h.snapshot, hbounded, fun s hs hlevel j hj d _ _ _ ↦ ?_⟩
    rw [h.own s hs hlevel]
    exact hj

lemma ServedFrom.servesLevels (h : ServedFrom cfg log l) (hlog : log.entries = historyOf seq)
    (hserved : c.servedReads = l.served) : ServesLevels seq seq.length c := by
  have hlength : log.entries.length = seq.length := by rw [hlog, historyOf, length_map]
  have hversion := h.version
  have hle := fun s (hs : s ∈ l.served) ↦
    (hversion s hs).le.trans (@versionFor_le cfg log l h.snapshot_le s.level)
  rw [hlength] at hversion hle
  rw [← hserved] at hversion hle
  refine ⟨hle, fun s hs ↦ ?_, fun s hs hlevel ↦ ?_, ?_, fun s hs hlevel ↦ ?_⟩
  · rw [h.value s (hserved ▸ hs), valueAtPrefix_historyOf hlog]
  · rw [hversion s hs, hlevel]
    rfl
  · refine ⟨l.snapshotVersion, hlength ▸ h.snapshot_le, fun s hs hlevel ↦ ?_⟩
    rw [hversion s hs, hlevel]
    rfl
  · rw [hversion s hs, hlevel]
    rfl

/-! ### The whole run -/

/-- The state of a run and its results: the results are the history behind the engine, and every
commit reads as its levels say. -/
structure Recorded (s : Apply × List CommitInfo) : Prop where
  follows : ∃ log, Follows s.1 log ∧ log.entries = historyOf (committed s.2)
  serves : ∀ i c, (committed s.2)[i]? = some c → ServesLevels (committed s.2) i c

def AllKeep (infos : List CommitInfo) : Prop :=
  ∀ i c, (committed infos)[i]? = some c → KeepsLevels (committed infos) i c

def StalenessBounded (serial : ℕ) (c : CommitInfo) : Prop :=
  ∀ s ∈ c.servedReads, s.level = .boundedStaleness → serial - s.maxLag ≤ s.servedVersion

variable {s : Apply × List CommitInfo}

lemma Recorded.allKeep_iff (h : Recorded s) :
    AllKeep s.2 ↔ ∀ i c, (committed s.2)[i]? = some c → StalenessBounded i c := by
  refine forall_congr' fun i ↦ forall_congr' fun c ↦ ?_
  exact imp_congr_right fun hc ↦ (h.serves i c hc).keepsLevels_iff

lemma stalenessBounded_iff (h : Follows a log)
    (hserved : c.servedReads = (serveReads cfg a t).served) :
    StalenessBounded log.entries.length c ↔
      ∀ r ∈ t.declaredReads, r.level = .boundedStaleness →
        cfg.replicaLag ≤ r.maxLag ∨ a.nextCommitVersion ≤ r.maxLag := by
  obtain ⟨hfrom, hfields⟩ := @serveReads_spec cfg a log h t
  -- Whether a read keeps its bound depends on its level and its bound only.
  have hread : ∀ s ∈ (serveReads cfg a t).served,
      (s.level = .boundedStaleness → log.entries.length - s.maxLag ≤ s.servedVersion) ↔
        (s.level = .boundedStaleness →
          cfg.replicaLag ≤ s.maxLag ∨ a.nextCommitVersion ≤ s.maxLag) := by
    intro s hs
    refine imp_congr_right fun hlevel ↦ ?_
    rw [hfrom.version s hs, hlevel, h.count]
    dsimp only [versionFor]
    omega
  rw [StalenessBounded, hserved]
  calc (∀ s ∈ (serveReads cfg a t).served, s.level = .boundedStaleness →
        log.entries.length - s.maxLag ≤ s.servedVersion)
      ↔ ∀ x ∈ (serveReads cfg a t).served.map fun s ↦ (s.level, s.maxLag),
          x.1 = .boundedStaleness → cfg.replicaLag ≤ x.2 ∨ a.nextCommitVersion ≤ x.2 := by
        rw [forall_mem_map]
        exact forall₂_congr hread
    _ ↔ _ := by rw [hfields, forall_mem_map]

lemma Recorded.attempt (h : Recorded s) (p : Pending) : Recorded (attempt backend cfg s p).1 ∧
      (AllKeep (Transactions.attempt backend cfg s p).1.2 ↔ AllKeep s.2 ∧ LagFits cfg s p) := by
  obtain ⟨log, hfollows, hlog⟩ := h.follows
  obtain ⟨hno, -, heq⟩ | ⟨hno, -, heq⟩ | ⟨hcommits, heq⟩ := attempt_cases backend cfg s p
  · rw [heq]
    exact ⟨h, (and_iff_left fun hcommits ↦ absurd hcommits hno).symm⟩
  · rw [heq]
    refine ⟨⟨⟨log, hfollows, ?_⟩, ?_⟩, ?_⟩
    · rw [committed_abort, hlog]
    · rw [committed_abort]
      exact h.serves
    · rw [AllKeep, committed_abort]
      exact (and_iff_left fun hcommits ↦ absurd hcommits hno).symm
  · set info := commitInfo p (backend.serve cfg s.1 p.txn).1 (backend.serve cfg s.1 p.txn).2
      (outcomeAt backend cfg s.1 p.txn)
      (backend.commit s.1 p.txn (outcomeAt backend cfg s.1 p.txn).writes).1
      (backend.commit s.1 p.txn (outcomeAt backend cfg s.1 p.txn).writes).2.1 with hinfo
    have hseq : committed (s.2 ++ [info]) = committed s.2 ++ [info] :=
      committed_commit _ _ _ _ _ _ _
    have hlength : log.entries.length = (committed s.2).length := by
      rw [hlog, historyOf, length_map]
    have hserved : info.servedReads = (serveReads cfg s.1 p.txn).served := rfl
    have hserves : ServesLevels (committed s.2) (committed s.2).length info :=
      (serveReads_spec hfollows p.txn).1.servesLevels hlog hserved
    have hnext : Recorded ((backend.commit s.1 p.txn (outcomeAt backend cfg s.1 p.txn).writes).2.2,
        s.2 ++ [info]) := by
      refine ⟨⟨_, hfollows.commit p.txn _, ?_⟩, ?_⟩
      · rw [hseq, historyOf, map_append, HistoryLog.append, hlog]
        rfl
      · dsimp only
        rw [hseq, forall_getElem?_concat]
        refine ⟨fun i c hc ↦ ?_, hserves.append le_rfl _⟩
        exact (h.serves i c hc).append (List.getElem?_eq_some_iff.mp hc).1.le _
    rw [heq]
    refine ⟨hnext, ?_⟩
    rw [hnext.allKeep_iff, h.allKeep_iff]
    dsimp only
    rw [hseq, forall_getElem?_concat, ← hlength, stalenessBounded_iff hfollows hserved]
    exact and_congr_right fun _ ↦ ⟨fun hfits _ ↦ hfits, fun hfits ↦ hfits hcommits⟩

/-- Every commit of the executor keeps what the levels of its reads promise, exactly when no
transaction commits with a read that may be less stale than the replica is. -/
theorem levels_kept_iff (batch : List Txn) (cfg : ExecConfig) :
    (∀ i c, (committedInOrder (DeterministicExecutor.submitBatch batch cfg))[i]? = some c →
      KeepsLevels (committedInOrder (DeterministicExecutor.submitBatch batch cfg)) i c) ↔
      Along (attempt backend cfg) (LagFits cfg) (maxRounds batch cfg) (backend.init, [])
        (initialQueue batch) := by
  have hstart : Recorded (backend.init, []) :=
    ⟨⟨{}, Follows.start, rfl⟩, fun i c hc ↦ absurd hc (Option.some_ne_none c).symm⟩
  refine (drain_iff_along (fun s _ ↦ Recorded s) (fun s ↦ AllKeep s.2) (LagFits cfg)
    (fun s p _ h ↦ h.attempt p) hstart _).trans (and_iff_right fun i c hc ↦ ?_)
  exact absurd hc (Option.some_ne_none c).symm

def staleRead : List Txn :=
  [{ id := 1
     body := some fun _ ↦ { writes := OrderedMap.empty.insert [1] [7] } },
   { id := 2, declaredReads := [{ key := [1], level := .boundedStaleness, maxLag := 0 }] }]

/-- On a replica that lags one commit behind, the read misses the write. -/
theorem staleRead_misses :
    (committedInOrder (DeterministicExecutor.submitBatch staleRead { replicaLag := 1 })).map
        CommitInfo.servedReads =
      [[], [{ key := [1], level := .boundedStaleness, servedVersion := 0, maxLag := 0 }]] ∧
    ¬ ∀ i c, (committedInOrder
        (DeterministicExecutor.submitBatch staleRead { replicaLag := 1 }))[i]? = some c →
      KeepsLevels (committedInOrder
        (DeterministicExecutor.submitBatch staleRead { replicaLag := 1 })) i c := by
  constructor
  · decide +kernel
  · intro hkeeps
    have hsecond := (hkeeps 1 _ rfl).bounded _ mem_cons_self rfl
    exact absurd hsecond (by decide +kernel)

end Lockstep.Transactions.ReadLevels
