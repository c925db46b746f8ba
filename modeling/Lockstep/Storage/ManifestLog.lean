import Lockstep.Storage.Recovery

/-!
# The manifest along a run

Flushes and compactions log their records to the manifest under whatever outcomes their I/O has.

The records are numbered without a gap as long as no record is logged after a manifest sync has
failed, since a failed sync takes the number back while the bytes stay.
-/

namespace Lockstep.Storage.WalEngine

open Library ManifestRecord GuardedRun RecordStream Config List

variable {records synced : List ManifestRecord} {after : WalEngine}

structure ManifestState where
  disk : Disk
  started : Bool
  tip : ℕ

def manifestState (e : WalEngine) : ManifestState where
  disk := e.manifestDisk
  started := e.manifestStarted
  tip := e.manifestTip

variable {e : WalEngine}

lemma Flushed.manifestState_eq (h : Flushed e after) :
    after.manifestState = e.manifestState ∧ after.sstables = e.sstables ∨
      ∃ ok man, LoggedTo e.manifestDisk e.manifestStarted
          { entryNo := e.manifestTip + 1, kind := e.installKind e.mem.flushEntries } ok man ∧
        after.manifestState =
          { disk := man, started := true, tip := if ok then e.manifestTip + 1 else e.manifestTip } ∧
        after.sstables =
          if ok then e.sstables ++ [e.nextTable e.mem.flushEntries] else e.sstables := by
  cases h with
  | stopped => exact .inl ⟨rfl, rfl⟩
  | failed io io' factory man _ hlog _ => exact .inr ⟨false, man, hlog, rfl, rfl⟩
  | done io io' factory man _ _ hlog _ _ => exact .inr ⟨true, man, hlog, rfl, rfl⟩

lemma doCompact_manifestState (e : WalEngine) :
    e.doCompact = e ∨ 2 ≤ e.sstables.length ∧ ∃ before logged after,
      before.manifestState = e.manifestState ∧ Logs (fun _ ↦ True) before logged after ∧
      e.doCompact.manifestState = after.manifestState := by
  rcases e.doCompact_cases with ⟨hidle, -⟩ | ⟨bucket, -, hcrowded, heq⟩
  · exact .inl hidle
  refine .inr ⟨hcrowded.trans (length_filter_le _ _), ?_⟩
  obtain ⟨_, _, _, hframe⟩ := e.rewritten_frame bucket
  obtain ⟨io, factory, next, logged, after, truncSeq, -, -, hlogs, hcases⟩ :=
    replaceTables_spec (e.rewritten bucket).2.2 (fun _ ↦ trivial) (e.rewritten bucket).1
      (e.rewritten bucket).2.1 ((e.compactionInputs bucket).map SSTableReader.sstableId)
      ((e.compactionInputs bucket).foldl (fun most t ↦ max most t.maxSeq) kNoSeq)
  refine ⟨_, logged, after, ?_, hlogs, ?_⟩
  · rw [hframe]
    rfl
  rw [heq]
  rcases hcases with ⟨-, hsame⟩ | ⟨-, hnew⟩
  · rw [hsame]
    rfl
  · rw [hnew]
    rfl

lemma doFlush_of_flushEntries_nil (h : e.mem.flushEntries = []) :
    e.doFlush.manifestState = e.manifestState ∧ e.doFlush.sstables = e.sstables := by
  rw [doFlush]
  split_ifs with hidle
  · exact ⟨rfl, rfl⟩
  obtain ⟨ok, io, factory, hsync, -⟩ := e.syncActiveVlog_spec
  simp only [hsync]
  cases ok with
  | false => exact ⟨rfl, rfl⟩
  | true =>
    simp only [Bool.not_true, Bool.false_eq_true, if_false, h, if_true, and_true]
    rfl

lemma exec_manifestState (hlsm : e.lsm = true) (action : Action) :
    ((e.exec action).manifestState = e.manifestState ∧ (e.exec action).sstables = e.sstables) ∨
      (action = .flush ∧ e.mem.flushEntries ≠ [] ∧ ∃ ok man,
        LoggedTo e.manifestDisk e.manifestStarted
          { entryNo := e.manifestTip + 1, kind := e.installKind e.mem.flushEntries } ok man ∧
        (e.exec action).manifestState =
          { disk := man, started := true, tip := if ok then e.manifestTip + 1 else e.manifestTip } ∧
        (e.exec action).sstables =
          if ok then e.sstables ++ [e.nextTable e.mem.flushEntries] else e.sstables) ∨
      (action = .compact ∧ 2 ≤ e.sstables.length ∧ ∃ before logged after,
        before.manifestState = e.manifestState ∧ Logs (fun _ ↦ True) before logged after ∧
        (e.exec action).manifestState = after.manifestState) := by
  cases action with
  | write key value tombstone =>
    obtain ⟨_, _, _, _, _, _, _, -, -, heq, -⟩ := e.write_spec key value tombstone
    rw [exec, heq]
    exact .inl ⟨rfl, rfl⟩
  | sync =>
    obtain ⟨_, _, _, _, hsync, -⟩ := e.sync_spec
    rw [exec, hsync]
    exact .inl ⟨rfl, rfl⟩
  | watermark seq => exact .inl ⟨rfl, rfl⟩
  | compact =>
    exact e.doCompact_manifestState.imp (fun hidle ↦ by rw [exec, hidle]; exact ⟨rfl, rfl⟩)
      fun h ↦ .inr ⟨rfl, h⟩
  | flush =>
    by_cases hnil : e.mem.flushEntries = []
    · exact .inl (doFlush_of_flushEntries_nil hnil)
    · exact (e.doFlush_spec hlsm).manifestState_eq.imp_right fun h ↦ .inl ⟨rfl, hnil, h⟩

structure ManifestState.Holds (m : ManifestState) (synced records : List ManifestRecord) :
    Prop where
  streams : m.disk.Streams manifestHeader encode synced records
  empty : m.started = false → m.disk.image = []

variable {d : Disk}

lemma nil_of_streams_nil (h : d.Streams manifestHeader encode synced records)
    (hnil : d.image = []) :
    records = [] ∧ synced = [] := by
  obtain ⟨front, -, himage⟩ := h.image
  rw [hnil] at himage
  have hrecords : records.flatMap encode = [] :=
    (append_eq_nil_iff.mp himage.symm).2
  have hlength : records.length ≤ (records.flatMap encode).length :=
    length_le_length_flatMap fun r _ ↦ length_encode_pos r
  rw [hrecords, length_nil, Nat.le_zero, length_eq_zero_iff] at hlength
  have hsynced := h.synced_le
  rw [hlength, prefix_nil] at hsynced
  exact ⟨hlength, hsynced⟩

variable {m : ManifestState} {ok : Bool}

lemma ManifestState.Holds.log {synced records : List ManifestRecord}
    (h : m.Holds synced records) {record : ManifestRecord}
    (hlog : LoggedTo m.disk m.started record ok d) (tip : ℕ) :
    (ok = true ∧ ManifestState.Holds ⟨d, true, tip⟩ (records ++ [record]) (records ++ [record])) ∨
      (ok = false ∧ ManifestState.Holds ⟨d, true, tip⟩ synced (records ++ [record])) ∨
      (ok = false ∧ ManifestState.Holds ⟨d, true, tip⟩ synced records) := by
  have hfront : ∀ front, (front = [] ∨ front = manifestHeader ∧ m.started = false) →
      (m.disk.append front).Streams manifestHeader encode synced records := by
    rintro front (rfl | ⟨rfl, hstarted⟩)
    · rw [Disk.append, append_nil]
      exact h.streams
    · have hempty := h.empty hstarted
      obtain ⟨rfl, rfl⟩ := nil_of_streams_nil h.streams hempty
      exact Disk.Streams.appendHeader hempty
  have hstarted : ∀ d : Disk, true = false → d.image = [] :=
    fun _ hno ↦ absurd hno.symm Bool.false_ne_true
  cases hlog with
  | synced front hf => exact .inl ⟨rfl, ((hfront front hf).append record).sync, hstarted _⟩
  | staged front hf => exact .inr (.inl ⟨rfl, (hfront front hf).append record, hstarted _⟩)
  | lost front hf => exact .inr (.inr ⟨rfl, hfront front hf, hstarted _⟩)

def manifestRecords (e : WalEngine) : List ManifestRecord :=
  let body := streamBody e.manifestDisk.image kManStreamMagic Format.kManifestVersion
  (decodeAll decodeManifest body.length body).getD []

lemma manifestRecords_eq {e : WalEngine}
    (h : HoldsRecords manifestHeader encode e.manifestDisk.image records) :
    e.manifestRecords = records.map wrap := by
  obtain ⟨hbody, hdecode⟩ := manifestBody_eq h
  have hpos : ∀ r ∈ records.map wrap, 0 < r.encode.length :=
    fun r _ ↦ length_encode_pos r
  have hall := decodeAll_flatMap hdecode hpos
    (length_le_length_flatMap hpos)
  rw [← hbody] at hall
  exact congrArg (Option.getD · []) hall

/-! ### Numbers -/

/-- The records are numbered from 1 without a gap, and the engine's number is not past them. -/
structure ManifestState.Numbered (m : ManifestState) (synced records : List ManifestRecord) :
    Prop extends m.Holds synced records where
  numbers : records.map entryNo = range' 1 records.length
  tip_le : m.tip ≤ records.length

lemma numbers_concat {records : List ManifestRecord} {record : ManifestRecord}
    (h : records.map entryNo = range' 1 records.length)
    (hrecord : record.entryNo = records.length + 1) :
    (records ++ [record]).map entryNo =
      range' 1 (records ++ [record]).length := by
  rw [map_append, h, length_append, length_singleton, range'_concat,
    map_singleton, hrecord, Nat.one_mul, Nat.add_comm 1]

variable {kind : ManifestKind}

lemma ManifestState.Numbered.log {synced records : List ManifestRecord}
    (h : m.Numbered synced records) (htip : m.tip = records.length)
    (hlog : LoggedTo m.disk m.started { entryNo := m.tip + 1, kind := kind } ok d) :
    ∃ synced' records',
      ManifestState.Numbered ⟨d, true, if ok then m.tip + 1 else m.tip⟩ synced' records' ∧
        records'.length ≤ records.length + 1 ∧ (ok = true → m.tip + 1 = records'.length) := by
  have hnumbers := @numbers_concat records { entryNo := m.tip + 1, kind := kind } h.numbers
    (by rw [htip])
  rcases h.toHolds.log hlog (if ok then m.tip + 1 else m.tip) with
    ⟨rfl, hholds⟩ | ⟨rfl, hholds⟩ | ⟨rfl, hholds⟩
  · refine ⟨_, _, ⟨hholds, hnumbers, ?_⟩, by simp, fun _ ↦ by simp [htip]⟩
    simp [htip]
  · refine ⟨_, _, ⟨hholds, hnumbers, ?_⟩, by simp, nofun⟩
    simp [htip]
  · exact ⟨_, _, ⟨hholds, h.numbers, h.tip_le⟩, Nat.le_succ _, nofun⟩

variable {allowed : ManifestKind → Prop} {before : WalEngine}

lemma Logs.numbered {logged : Bool}
    (hlogs : Logs allowed before logged after) (h : before.manifestState.Numbered synced records)
    (htip : before.manifestTip = records.length) :
    ∃ synced' records', after.manifestState.Numbered synced' records' ∧
      (logged = true → after.manifestTip = records'.length) := by
  induction hlogs with
  | nil => exact ⟨synced, records, h, fun _ ↦ htip⟩
  | log io _ _ hlog ih =>
    obtain ⟨synced', records', hmid, hmidTip⟩ := ih
    obtain ⟨synced'', records'', hafter, -, hafterTip⟩ := hmid.log (hmidTip rfl) hlog
    refine ⟨synced'', records'', hafter, fun hok ↦ ?_⟩
    subst hok
    exact hafterTip rfl

/-- The engine's number is that of the last record on the manifest wherever a record is logged,
so no manifest sync has failed before. -/
def InStep (e : WalEngine) : Action → Prop
  | .flush => e.manifestTip = e.manifestRecords.length ∨ e.mem.flushEntries = []
  | .compact => e.manifestTip = e.manifestRecords.length ∨ e.sstables.length < 2
  | _ => True

instance (e : WalEngine) : (action : Action) → Decidable (e.InStep action)
  | .flush => inferInstanceAs (Decidable (_ ∨ _))
  | .compact => inferInstanceAs (Decidable (_ ∨ _))
  | .write _ _ _ | .sync | .watermark _ => isTrue trivial

def LogsOnce (e : WalEngine) : Action → Prop
  | .flush => e.manifestRecords = [] ∨ e.mem.flushEntries = []
  | _ => True

instance (e : WalEngine) : (action : Action) → Decidable (e.LogsOnce action)
  | .flush => inferInstanceAs (Decidable (_ ∨ _))
  | .compact | .write _ _ _ | .sync | .watermark _ => isTrue trivial

lemma exec_numbered (hlsm : e.lsm = true) {action : Action} (hstep : e.InStep action)
    (h : e.manifestState.Numbered synced records) :
    ∃ synced' records', (e.exec action).manifestState.Numbered synced' records' := by
  have hrecords : e.manifestRecords.length = records.length := by
    rw [manifestRecords_eq h.streams.image, length_map]
  rcases exec_manifestState hlsm action with ⟨hsame, -⟩ | ⟨rfl, hne, ok, man, hlog, hman, -⟩ |
    ⟨rfl, htwo, before, logged, after, hbefore, hlogs, hafter⟩
  · exact ⟨synced, records, hsame ▸ h⟩
  · obtain ⟨synced', records', hnumbered, -⟩ :=
      h.log ((hstep.resolve_right hne).trans hrecords) hlog
    exact ⟨synced', records', hman ▸ hnumbered⟩
  · have htip := hstep.resolve_right (not_lt.mpr htwo)
    have htipBefore : before.manifestTip = records.length :=
      (congrArg ManifestState.tip hbefore).trans (htip.trans hrecords)
    obtain ⟨synced', records', hnumbered, -⟩ := hlogs.numbered (hbefore ▸ h) htipBefore
    exact ⟨synced', records', hafter ▸ hnumbered⟩

lemma exec_numbered_once (hlsm : e.lsm = true) {action : Action} (honce : e.LogsOnce action)
    (h : e.manifestState.Numbered synced records) (hone : records.length ≤ 1)
    (htables : e.sstables.length ≤ records.length) :
    ∃ synced' records', (e.exec action).manifestState.Numbered synced' records' ∧
      records'.length ≤ 1 ∧ (e.exec action).sstables.length ≤ records'.length := by
  rcases exec_manifestState hlsm action with ⟨hsame, hsst⟩ |
    ⟨rfl, hne, ok, man, hlog, hman, hsst⟩ | ⟨rfl, htwo, -⟩
  · exact ⟨synced, records, hsame ▸ h, hone, hsst ▸ htables⟩
  · have hnone := honce.resolve_right hne
    rw [manifestRecords_eq h.streams.image, map_eq_nil_iff] at hnone
    subst hnone
    have htip : e.manifestTip = 0 := Nat.le_zero.mp h.tip_le
    obtain ⟨synced', records', hnumbered, hlength, hok⟩ := h.log htip hlog
    refine ⟨synced', records', hman ▸ hnumbered, hlength, ?_⟩
    have hnoTables : e.sstables = [] := length_eq_zero_iff.mp (Nat.le_zero.mp htables)
    rw [hsst, hnoTables]
    cases ok with
    | false => exact Nat.zero_le _
    | true => exact (hok rfl).symm ▸ Nat.succ_le_succ (Nat.zero_le _)
  · omega

/-! ### What recovery folds -/

def ManifestFolds (image : List UInt8) : Prop :=
  ∃ records, HoldsRecords manifestHeader encode image records ∧
    records.map entryNo = range' 1 records.length ∧
    records.foldlM foldManifest {} = some (foldManifestImage image)

lemma exists_foldManifest {r : ManifestRecord} (h : r.entryNo = expectEntry) (f : ManifestFold) :
    ∃ next, foldManifest f r = some next := by
  rw [foldManifest, if_neg (not_not.mpr h)]
  cases r.kind <;> exact ⟨_, rfl⟩

lemma foldlM_foldManifest_eq_none {first second : ManifestRecord}
    (hsecond : second.entryNo ≠ expectEntry) :
    (first :: second :: records).foldlM foldManifest {} = none := by
  rw [foldlM_cons]
  cases foldManifest {} first with
  | none => rfl
  | some f =>
    have hrefuse : foldManifest f second = none := if_pos hsecond
    change foldlM foldManifest f (second :: records) = none
    rw [foldlM_cons, hrefuse]
    rfl

lemma length_le_one_of_foldlM {f : ManifestFold}
    (hnumbers : records.map entryNo = range' 1 records.length)
    (hfold : records.foldlM foldManifest {} = some f) : records.length ≤ 1 := by
  rcases records with _ | ⟨first, _ | ⟨second, records⟩⟩
  · exact Nat.zero_le _
  · exact le_rfl
  · have htwo : second.entryNo = 2 := by
      exact (cons.inj (cons.inj hnumbers).2).1
    rw [foldlM_foldManifest_eq_none (by rw [htwo]; decide)] at hfold
    cases hfold

lemma length_manifestRecords_le_one {e : WalEngine} (h : ManifestFolds e.manifestDisk.image) :
    e.manifestRecords.length ≤ 1 := by
  obtain ⟨records, hholds, hnumbers, hfold⟩ := h
  rw [manifestRecords_eq hholds, length_map]
  exact length_le_one_of_foldlM hnumbers hfold

lemma manifestFolds_iff {e : WalEngine} (h : e.manifestState.Numbered synced records) :
    ManifestFolds e.manifestDisk.image ↔ records.length ≤ 1 := by
  constructor
  · intro hfolds
    have hone := length_manifestRecords_le_one hfolds
    rwa [manifestRecords_eq h.streams.image, length_map] at hone
  intro hone
  have hfold : foldManifestImage e.manifestDisk.image = _ :=
    foldManifestImage_eq_steps h.streams.image
  refine ⟨records.map wrap, h.streams.image.map fun r ↦ r.encode_wrap, ?_, ?_⟩
  all_goals
    have hnumbers := h.numbers
    rcases records with _ | ⟨first, _ | ⟨second, records⟩⟩
  · rfl
  · have hfirst : first.entryNo = 1 := (cons.inj hnumbers).1
    simp [wrap, hfirst]
  · simp at hone
  · exact congrArg some hfold.symm
  · have hfirst : first.entryNo = 1 := (cons.inj hnumbers).1
    have hexpect : first.wrap.entryNo = expectEntry := by
      rw [wrap, hfirst]
      rfl
    obtain ⟨next, hnext⟩ := exists_foldManifest hexpect {}
    rw [hfold, map_singleton, foldlM_cons, steps, hnext]
    rfl
  · simp at hone

/-- Under any outcomes of the I/O. The numbers are right as long as every record is logged in step,
and then recovery folds all records exactly when there is at most one, as there is when a flush
only ever writes to an empty manifest. -/
theorem manifest_numbering (c : Config) (io : Script) (actions : List Action) :
    (Meets exec LogsOnce (c.engine io) actions →
        ManifestFolds (run exec (c.engine io) actions).manifestDisk.image) ∧
      (Meets exec InStep (c.engine io) actions →
        ∃ records, HoldsRecords manifestHeader encode
            (run exec (c.engine io) actions).manifestDisk.image records ∧
          records.map entryNo = range' 1 records.length ∧
          (ManifestFolds (run exec (c.engine io) actions).manifestDisk.image ↔
            records.length ≤ 1)) := by
  have hstart : (c.engine io).manifestState.Numbered [] [] :=
    ⟨⟨Disk.Streams.empty, fun _ ↦ rfl⟩, rfl, le_rfl⟩
  constructor
  · intro honce
    have hfinal := honce.induction
      (fun e : WalEngine ↦ e.lsm = true ∧ ∃ synced records,
        e.manifestState.Numbered synced records ∧ records.length ≤ 1 ∧
        e.sstables.length ≤ records.length)
      (fun e action ⟨hlsm, synced, records, hnumbered, hone, htables⟩ hlogs ↦
        ⟨(exec_config hlsm action).1, exec_numbered_once hlsm hlogs hnumbered hone htables⟩)
      ⟨rfl, [], [], hstart, Nat.zero_le _, le_rfl⟩
    obtain ⟨-, synced, records, hnumbered, hone, -⟩ := hfinal
    exact (manifestFolds_iff hnumbered).mpr hone
  · intro hinStep
    have hfinal := hinStep.induction
      (fun e : WalEngine ↦ e.lsm = true ∧ ∃ synced records, e.manifestState.Numbered synced records)
      (fun e action ⟨hlsm, synced, records, hnumbered⟩ hstep ↦
        ⟨(exec_config hlsm action).1, exec_numbered hlsm hstep hnumbered⟩)
      ⟨rfl, [], [], hstart⟩
    obtain ⟨-, synced, records, hnumbered⟩ := hfinal
    exact ⟨records, hnumbered.streams.image, hnumbered.numbers, manifestFolds_iff hnumbered⟩

def twoFlushes : List Action :=
  [.write [97] [1] false, .flush, .write [98] [2] false, .flush]

def failedManifestSync : Script := { outcomes := [true, true, true, true, true, true, false] }

theorem manifest_numbering_oneFlush :
    ManifestFolds (run exec (engine {} failedManifestSync)
      [.write [97] [1] false, .flush]).manifestDisk.image :=
  (manifest_numbering {} failedManifestSync [.write [97] [1] false, .flush]).1
    (by decide +kernel)

/-- After a failed sync the number is given out again, and even when no I/O fails the second record
is not folded. -/
theorem manifest_numbering_fails :
    (run exec (engine {} failedManifestSync)
        twoFlushes).manifestRecords.map entryNo = [1, 1] ∧
      ¬ ManifestFolds (run exec (engine {} failedManifestSync)
        twoFlushes).manifestDisk.image ∧
      ¬ ManifestFolds (run exec (engine {} Script.honest)
        twoFlushes).manifestDisk.image :=
  ⟨by decide +kernel, fun h ↦ absurd (length_manifestRecords_le_one h) (by decide +kernel),
    fun h ↦ absurd (length_manifestRecords_le_one h) (by decide +kernel)⟩

/-! ### Truncation records are not folded -/

def ManifestKind.isInstall : ManifestKind → Bool
  | .install _ _ _ _ => true
  | _ => false

def Expected (r : ManifestRecord) : Prop := r.wrap.entryNo = expectEntry

instance (r : ManifestRecord) : Decidable (Expected r) := inferInstanceAs (Decidable (_ = _))

/-- The records the fold gets to are install records. Past the first number a record that stops it
is already synced. -/
structure ManifestState.Guarded (m : ManifestState) (synced records : List ManifestRecord) :
    Prop extends m.Holds synced records where
  installs : ∀ r ∈ records.takeWhile Expected, ManifestKind.isInstall r.kind = true
  stopped : 2 ≤ m.tip → ∃ r ∈ synced, ¬ Expected r

lemma mem_takeWhile_concat {record r : ManifestRecord}
    (hr : r ∈ (records ++ [record]).takeWhile Expected) :
    r ∈ records.takeWhile Expected ∨ r = record ∧ Expected record ∧ ∀ d ∈ records, Expected d := by
  rw [takeWhile_append] at hr
  split_ifs at hr with hall
  · have hself : records.takeWhile (fun d ↦ decide (Expected d)) = records :=
      (List.takeWhile_prefix _).eq_of_length hall
    rcases mem_append.mp hr with hmem | hlast
    · exact .inl (hself.symm ▸ hmem)
    have hexpected := mem_takeWhile_imp hlast
    have hrecord := mem_singleton.mp ((List.takeWhile_prefix _).subset hlast)
    subst hrecord
    refine .inr ⟨rfl, of_decide_eq_true hexpected, fun d hd ↦ ?_⟩
    rw [← hself] at hd
    have hdecide := mem_takeWhile_imp hd
    exact of_decide_eq_true hdecide
  · exact .inl hr

lemma ManifestState.Guarded.log {synced records : List ManifestRecord}
    (h : m.Guarded synced records) (hkind : ManifestKind.isInstall kind = true ∨ 1 ≤ m.tip)
    (hlog : LoggedTo m.disk m.started { entryNo := m.tip + 1, kind := kind } ok d) :
    ∃ synced' records',
      ManifestState.Guarded ⟨d, true, if ok then m.tip + 1 else m.tip⟩ synced' records' := by
  have hsubset : ∀ r ∈ synced, r ∈ records := fun r hr ↦ h.streams.synced_le.subset hr
  -- The new record's number is 2 when the engine's number is 1, and past that the fold has stopped.
  have hnew : 1 ≤ m.tip → ∀ r, r = (⟨m.tip + 1, kind⟩ : ManifestRecord) → Expected r →
      ∃ d ∈ records, ¬ Expected d := by
    rintro htip r rfl hexpected
    by_cases htwo : 2 ≤ m.tip
    · obtain ⟨d, hd, hstop⟩ := h.stopped htwo
      exact ⟨d, hsubset d hd, hstop⟩
    · have hone : m.tip = 1 := by omega
      rw [hone] at hexpected
      have hnumber : (1 + 1) % 2 ^ 64 = expectEntry := hexpected
      exact absurd hnumber (by decide)
  have hinstalls : ∀ r ∈ (records ++ [(⟨m.tip + 1, kind⟩ : ManifestRecord)]).takeWhile Expected,
      ManifestKind.isInstall r.kind = true := by
    intro r hr
    rcases mem_takeWhile_concat hr with hold | ⟨rfl, hexpected, hall⟩
    · exact h.installs r hold
    · rcases hkind with hinstall | htip
      · exact hinstall
      · obtain ⟨d, hd, hstop⟩ := hnew htip _ rfl hexpected
        exact absurd (hall d hd) hstop
  rcases h.toHolds.log hlog (if ok then m.tip + 1 else m.tip) with
    ⟨rfl, hholds⟩ | ⟨rfl, hholds⟩ | ⟨rfl, hholds⟩
  · refine ⟨_, _, hholds, hinstalls, fun htwo ↦ ?_⟩
    have htip : 1 ≤ m.tip := Nat.le_of_succ_le_succ htwo
    by_cases hexpected : Expected (⟨m.tip + 1, kind⟩ : ManifestRecord)
    · obtain ⟨d, hd, hstop⟩ := hnew htip _ rfl hexpected
      exact ⟨d, mem_append_left _ hd, hstop⟩
    · exact ⟨_, mem_append_right _ mem_cons_self, hexpected⟩
  · exact ⟨_, _, hholds, hinstalls, h.stopped⟩
  · exact ⟨_, _, hholds, h.installs, h.stopped⟩

lemma Logs.guarded {logged : Bool}
    (hlogs : Logs allowed before logged after) (h : before.manifestState.Guarded synced records)
    (htip : 1 ≤ before.manifestTip) :
    1 ≤ after.manifestTip ∧ ∃ synced' records', after.manifestState.Guarded synced' records' := by
  induction hlogs with
  | nil => exact ⟨htip, synced, records, h⟩
  | @log mid _ ok _ io _ _ hlog ih =>
    obtain ⟨hmidTip, synced', records', hmid⟩ := ih
    refine ⟨?_, hmid.log (.inr hmidTip) hlog⟩
    cases ok with
    | true => exact Nat.le_succ_of_le hmidTip
    | false => exact hmidTip

def TruncFree (e : WalEngine) : Prop :=
  (∃ synced records, e.manifestState.Guarded synced records) ∧
    (e.sstables ≠ [] → 1 ≤ e.manifestTip)

lemma TruncFree.exec (h : e.TruncFree) (hlsm : e.lsm = true)
    (action : Action) : (e.exec action).TruncFree := by
  obtain ⟨⟨synced, records, hguarded⟩, htables⟩ := h
  rcases exec_manifestState hlsm action with ⟨hsame, hsst⟩ | ⟨rfl, -, ok, man, hlog, hman, hsst⟩ |
    ⟨rfl, htwo, before, logged, after, hbefore, hlogs, hafter⟩
  · have htip : (e.exec action).manifestTip = e.manifestTip := congrArg ManifestState.tip hsame
    refine ⟨⟨synced, records, hsame ▸ hguarded⟩, ?_⟩
    rw [hsst, htip]
    exact htables
  · have htip : (e.exec .flush).manifestTip = if ok then e.manifestTip + 1 else e.manifestTip :=
      congrArg ManifestState.tip hman
    refine ⟨hman ▸ hguarded.log (.inl rfl) hlog, ?_⟩
    rw [hsst, htip]
    cases ok with
    | true => exact fun _ ↦ Nat.succ_le_succ (Nat.zero_le _)
    | false => exact htables
  · have hne : e.sstables ≠ [] := ne_nil_of_length_pos (Nat.zero_lt_of_lt htwo)
    have htip : before.manifestTip = e.manifestTip := congrArg ManifestState.tip hbefore
    obtain ⟨hafterTip, hafterGuarded⟩ := hlogs.guarded (hbefore ▸ hguarded) (htip ▸ htables hne)
    have hcompactTip : (e.exec .compact).manifestTip = after.manifestTip :=
      congrArg ManifestState.tip hafter
    exact ⟨hafter ▸ hafterGuarded, fun _ ↦ hcompactTip ▸ hafterTip⟩

structure ManifestFold.Installs (f : ManifestFold) : Prop where
  walTruncSeq : f.walTruncSeq = kNoSeq
  tip_le : f.manifestTip ≤ 1
  live : f.live ≠ [] → f.manifestTip = 1

lemma ManifestFold.Installs.steps
    (hinstalls : ∀ r ∈ records.takeWhile Expected, ManifestKind.isInstall r.kind = true)
    {f : ManifestFold} (hf : f.Installs) :
    (steps foldManifest (records.map wrap) f).Installs := by
  induction records generalizing f with
  | nil => exact hf
  | cons r records ih =>
    rw [map_cons, RecordStream.steps]
    by_cases hexpected : Expected r
    · rw [takeWhile_cons_of_pos (by simpa using hexpected)] at hinstalls
      have hfirst := hinstalls r mem_cons_self
      obtain ⟨entryNo, kind⟩ := r
      cases kind with
      | install id len minSeq maxSeq =>
        have hstep : ∃ next, foldManifest f (wrap
            ⟨entryNo, .install id len minSeq maxSeq⟩) = some next ∧ next.Installs := by
          refine ⟨_, if_neg (not_not.mpr hexpected), hf.walTruncSeq, ?_, fun _ ↦ hexpected⟩
          exact (hexpected : entryNo % 2 ^ 64 = 1).le
        obtain ⟨next, hnext, hnextInstalls⟩ := hstep
        rw [hnext]
        exact ih (forall_mem_cons.mp hinstalls).2 hnextInstalls
      | obsolete id => cases hfirst
      | walTrunc seq => cases hfirst
    · have hrefuse : foldManifest f r.wrap = none := if_pos hexpected
      rw [hrefuse]
      exact hf

lemma ManifestState.Guarded.installs_synced (h : m.Guarded synced records) :
    ∀ r ∈ synced.takeWhile Expected, ManifestKind.isInstall r.kind = true := by
  intro r hr
  obtain ⟨rest, hrest⟩ := h.streams.synced_le
  refine h.installs r ?_
  rw [← hrest, takeWhile_append]
  split_ifs
  · exact mem_append_left _ ((List.takeWhile_prefix _).subset hr)
  · exact hr

lemma TruncFree.fold {e : WalEngine} (h : e.TruncFree) :
    (foldManifestImage e.manifestDisk.durable).Installs := by
  obtain ⟨⟨synced, records, hguarded⟩, -⟩ := h
  have hfold : foldManifestImage e.manifestDisk.durable = _ :=
    foldManifestImage_eq_steps hguarded.streams.durable
  rw [hfold]
  exact ManifestFold.Installs.steps hguarded.installs_synced ⟨rfl, Nat.zero_le _, nofun⟩

lemma TruncFree.restart {e : WalEngine} (h : e.TruncFree) (hlsm : e.lsm = true) :
    e.restart.TruncFree ∧ e.restart.walTruncSeq = kNoSeq := by
  have hfold := h.fold
  obtain ⟨⟨synced, records, hguarded⟩, -⟩ := h
  have hafter := (restart_spec hlsm).1
  have htrunc : e.restart.walTruncSeq = kNoSeq := by
    rw [hafter.walTruncSeq, hfold.walTruncSeq]
    exact Nat.zero_min _
  refine ⟨⟨⟨synced, synced, ⟨?_, fun hstarted ↦ ?_⟩, hguarded.installs_synced, ?_⟩, ?_⟩, htrunc⟩
  · rw [manifestState, hafter.manifestDisk]
    exact hguarded.streams.crash
  · rw [manifestState] at hstarted ⊢
    rw [hafter.manifestDisk]
    rw [hafter.manifestStarted] at hstarted
    simpa using hstarted
  · intro htwo
    rw [manifestState, hafter.manifestTip] at htwo
    exact absurd (htwo.trans hfold.tip_le) (by decide)
  · intro htables
    rw [hafter.manifestTip]
    refine (hfold.live fun hnil ↦ htables ?_).ge
    rw [hafter.sstables, hnil]
    rfl

lemma TruncFree.step {e : WalEngine} (h : e.TruncFree) (hlsm : e.lsm = true) (event : Event) :
    (e.step event).lsm = true ∧ (e.step event).TruncFree := by
  cases event with
  | call action => exact ⟨(exec_config hlsm action).1, h.exec hlsm action⟩
  | restart => exact ⟨(restart_spec hlsm).1.lsm.trans hlsm, (h.restart hlsm).1⟩

/-- A loaded table holds the record's number, or a newer version of its key that hides it from
every snapshot at or above the watermark. -/
def Covers (tables : List SSTableReader) (watermark : Seq) (record : WalRecord) : Prop :=
  ∃ t ∈ tables, ∃ v ∈ t.collectEntries, v.key = record.key ∧
    (v.seq = record.seq ∨ record.seq < v.seq ∧ v.seq ≤ watermark)

/-- Under any outcomes of the I/O, any number of restarts, and any damage to the tables' disks
before the last one: recovery truncates nothing, and so skips no record that is not covered. -/
theorem recovery_skips_covered (c : Config) (io : Script) (events : List Event)
    (factory : ℕ → Disk) (record : WalRecord) (hseq : record.seq ≠ kNoSeq) :
    ({ run step (c.engine io) events with factory := factory }).restart.walTruncSeq =
        kNoSeq ∧
      (record.seq ≤
          ({ run step (c.engine io) events with factory := factory }).restart.walTruncSeq →
        Covers ({ run step (c.engine io) events with factory := factory }).restart.sstables
          (run step (c.engine io) events).gcWatermark record) := by
  have hstart : (c.engine io).TruncFree :=
    ⟨⟨[], [], ⟨⟨Disk.Streams.empty, fun _ ↦ rfl⟩, nofun, nofun⟩⟩, fun h ↦ absurd rfl h⟩
  obtain ⟨hlsm, hfree⟩ := run_keeps (fun e : WalEngine ↦ e.lsm = true ∧ e.TruncFree)
    (fun e event ⟨hlsm, hfree⟩ ↦ hfree.step hlsm event) ⟨rfl, hstart⟩ events
  have htrunc := (@TruncFree.restart
    { run step (c.engine io) events with factory := factory } hfree hlsm).2
  refine ⟨htrunc, fun hskip ↦ ?_⟩
  rw [htrunc] at hskip
  exact absurd (Nat.le_zero.mp hskip) hseq

def compactedEvents : List Event :=
  [.call (.write [97] [1] false), .call .flush, .call (.write [98] [2] false), .call .flush,
    .call .compact]

theorem recovery_skips_covered_compacted :
    (run step (engine { compactionTrigger := 2 } Script.honest)
        compactedEvents).walTruncSeq = 2 ∧
      ({ run step (engine { compactionTrigger := 2 } Script.honest)
          compactedEvents with factory := fun _ ↦ {} }).restart.walTruncSeq = kNoSeq :=
  ⟨by decide +kernel, (recovery_skips_covered { compactionTrigger := 2 } Script.honest
    compactedEvents (fun _ ↦ {}) { seq := 1, key := [97], value := [1] } (by decide)).1⟩

end Lockstep.Storage.WalEngine
