import Lockstep.Storage.Pointers

/-!
# What recovery rebuilds

Recovery folds the manifest, loads the live tables and replays the log (`recover_spec`). A restart
is a crash, which drops what was not synced, and the recovery from it (`restart_spec`).

A log whose records are numbered from 1 is replayed whole (`steps_replayRecord`).
-/

namespace Lockstep.Storage.WalEngine

open Library SSTableBuilder SSTableReader RecordStream Memtable ManifestRecord
open List

lemma derefValue_congr {e e' : WalEngine} (hlsm : e'.lsm = e.lsm)
    (hfactory : e'.factory = e.factory) (pointer : Value) :
    e'.derefValue pointer = e.derefValue pointer := by
  rw [derefValue, derefValue, hlsm, hfactory]

lemma loadTables_congr {e e' : WalEngine} (hlsm : e'.lsm = e.lsm)
    (hthreshold : e'.valueThreshold = e.valueThreshold) (hfactory : e'.factory = e.factory)
    (live : List LiveRec) : e'.loadTables live = e.loadTables live := by
  have hactive : e'.valueLogActive = e.valueLogActive := by
    rw [valueLogActive, valueLogActive, hlsm, hthreshold]
  have hresolve : ∀ t, e'.vlogPointersResolve t = e.vlogPointersResolve t := by
    intro t
    simp only [vlogPointersResolve, derefValue_congr hlsm hfactory]
  induction live with
  | nil => rfl
  | cons lr live ih =>
    have hload : e'.loadTable lr = e.loadTable lr := by
      rw [loadTable, loadTable, hfactory]
    rw [loadTables, loadTables, hload, hactive, ih]
    simp only [hresolve]

def loadedMax (tables : List SSTableReader) : Seq :=
  tables.foldl (fun most t ↦ max most t.maxSeq) kNoSeq

/-- What recovery leaves: the disks as they are, and the state that the manifest and the log
give. -/
structure Recovered (e after : WalEngine) : Prop where
  lsm : after.lsm = e.lsm
  config : after.config = e.config
  io : after.io = e.io
  disk : after.disk = e.disk
  manifestDisk : after.manifestDisk = e.manifestDisk
  factory : after.factory = e.factory
  manifestTip : after.manifestTip = (foldManifestImage e.manifestDisk.image).manifestTip
  manifestStarted : after.manifestStarted =
    if e.manifestDisk.image = [] then e.manifestStarted else true
  nextSstableId : after.nextSstableId = (foldManifestImage e.manifestDisk.image).nextSstableId
  sstables : after.sstables = e.loadTables (foldManifestImage e.manifestDisk.image).live
  walTruncSeq : after.walTruncSeq =
    min (foldManifestImage e.manifestDisk.image).walTruncSeq (loadedMax after.sstables)
  readWatermark : after.readWatermark = e.readWatermark
  reclaimed : after.reclaimedVlogIds = e.reclaimedVlogIds
  vlogGen_ne : e.vlogGen ≠ 0 → after.vlogGen ≠ 0

/-- The engine that replays the log: set up by the manifest, with an empty memtable. -/
structure Recovered.Replays (e after base : WalEngine) : Prop where
  lsm : base.lsm = e.lsm
  factory : base.factory = e.factory
  mem : base.mem.clear = { resident := e.mem.resident }
  lastSeq : base.lastSeq = loadedMax after.sstables
  walTruncSeq : base.walTruncSeq = after.walTruncSeq
  replayed : after.mem = (base.replayImage e.disk.image).mem ∧
    after.lastSeq = (base.replayImage e.disk.image).lastSeq ∧
    after.walStarted = !e.disk.image.isEmpty

lemma read_image (d : Disk) : d.read 0 d.image.length = some d.image :=
  Disk.read_zero (List.append_nil _).symm

variable {e : WalEngine}

lemma recoverManifest_spec (hlsm : e.lsm = true) :
    ∃ tables, tables = e.loadTables (foldManifestImage e.manifestDisk.image).live ∧
      e.recoverManifest e.manifestDisk.image.length =
        { e with
          manifestStarted := if e.manifestDisk.image = [] then e.manifestStarted else true
          nextSstableId := (foldManifestImage e.manifestDisk.image).nextSstableId
          manifestTip := (foldManifestImage e.manifestDisk.image).manifestTip
          obsoletedIds := (foldManifestImage e.manifestDisk.image).obsoletedIds
          sstables := tables
          lastSeq := loadedMax tables
          walTruncSeq :=
            min (foldManifestImage e.manifestDisk.image).walTruncSeq (loadedMax tables) } := by
  refine ⟨_, rfl, ?_⟩
  rw [recoverManifest]
  by_cases hempty : e.manifestDisk.image = []
  · have hfold : foldManifestImage e.manifestDisk.image = {} := by
      rw [hempty]
      rfl
    simp only [hempty, length_nil, true_or, if_true, Option.map_none, Option.getD_none,
      Option.isSome_none, Bool.false_eq_true, if_false]
    rfl
  · have hread : (if e.manifestDisk.image.length = 0 ∨ (!e.lsm) = true then none
        else e.manifestDisk.read 0 e.manifestDisk.image.length) = some e.manifestDisk.image := by
      rw [if_neg, read_image]
      rintro (hlength | hno)
      · exact hempty (length_eq_zero_iff.mp hlength)
      · rw [hlsm] at hno
        cases hno
    simp only [hread, Option.map_some, Option.getD_some, Option.isSome_some, if_true, if_neg hempty]
    rw [@loadTables_congr e { e with
      manifestStarted := true
      nextSstableId := (foldManifestImage e.manifestDisk.image).nextSstableId
      manifestTip := (foldManifestImage e.manifestDisk.image).manifestTip
      obsoletedIds := (foldManifestImage e.manifestDisk.image).obsoletedIds } rfl rfl rfl]
    rfl

lemma freshWriteGen_frame (e : WalEngine) :
    ∃ gen len counter, e.freshWriteGen =
        { e with vlogGen := gen, vlogLen := len, vlogGenCounter := counter } ∧
      (e.vlogGen ≠ 0 → gen ≠ 0) := by
  rw [freshWriteGen]
  split_ifs
  · exact ⟨_, _, _, rfl, fun _ ↦ by omega⟩
  · exact ⟨_, _, _, rfl, id⟩

lemma replayImage_resident (e : WalEngine) (image : List UInt8) :
    (e.replayImage image).mem.resident = e.mem.resident := by
  refine scan_keeps (fun r : Replay ↦ r.mem.resident = e.mem.resident)
    (fun r record next hr hnext ↦ ?_) _ _ rfl
  rw [replayRecord] at hnext
  split_ifs at hnext
  · exact Option.some.inj hnext ▸ hr
  · rw [← Option.some.inj hnext]
    exact hr

def recover (e : WalEngine) : WalEngine :=
  e.recoverLsm e.disk.image.length e.manifestDisk.image.length

lemma recover_spec (hlsm : e.lsm = true) :
    Recovered e e.recover ∧ ∃ base, Recovered.Replays e e.recover base := by
  obtain ⟨gen, len, counter, hfresh, hgen⟩ := freshWriteGen_frame { e with mem := e.mem.clear }
  set start : WalEngine := { e with
    mem := e.mem.clear
    vlogGen := gen
    vlogLen := len
    vlogGenCounter := counter }
  obtain ⟨tables, htables, hmanifest⟩ := @recoverManifest_spec start hlsm
  have hlength : e.manifestDisk.image.length = start.manifestDisk.image.length := rfl
  have hstartTables : tables = e.loadTables (foldManifestImage e.manifestDisk.image).live :=
    htables.trans (@loadTables_congr e start rfl rfl rfl _)
  have hread : (start.recoverManifest e.manifestDisk.image.length).disk.read 0
      e.disk.image.length = some e.disk.image := by
    exact read_image _
  have hrecover : e.recover =
      { (start.recoverManifest e.manifestDisk.image.length) with
        mem := ((start.recoverManifest e.manifestDisk.image.length).replayImage e.disk.image).mem
        lastSeq := ((start.recoverManifest e.manifestDisk.image.length).replayImage
          e.disk.image).lastSeq
        walStarted := !e.disk.image.isEmpty } := by
    rw [recover, recoverLsm, hfresh]
    simp only [hread]
  rw [hmanifest] at hrecover
  refine ⟨?_, start.recoverManifest e.manifestDisk.image.length, ?_⟩
  · rw [hrecover]
    exact
      { lsm := rfl
        config := by
          simp only [config, replayImage_resident]
          rfl
        io := rfl
        disk := rfl
        manifestDisk := rfl
        factory := rfl
        manifestTip := rfl
        manifestStarted := rfl
        nextSstableId := rfl
        sstables := hstartTables
        walTruncSeq := rfl
        readWatermark := rfl
        reclaimed := rfl
        vlogGen_ne := hgen }
  · rw [hrecover, hmanifest]
    exact
      { lsm := rfl, factory := rfl, mem := rfl, lastSeq := rfl, walTruncSeq := rfl,
        replayed := ⟨rfl, rfl, rfl⟩ }

/-- What a restart leaves: the synced bytes, and the state that the manifest and the log give. -/
structure Restarted (e after : WalEngine) : Prop where
  lsm : after.lsm = e.lsm
  config : after.config = e.config
  io : after.io = e.io
  disk : after.disk = e.disk.crash
  manifestDisk : after.manifestDisk = e.manifestDisk.crash
  factory : after.factory = fun id ↦ (e.factory id).crash
  manifestTip : after.manifestTip = (foldManifestImage e.manifestDisk.durable).manifestTip
  manifestStarted : after.manifestStarted = !e.manifestDisk.durable.isEmpty
  nextSstableId : after.nextSstableId = (foldManifestImage e.manifestDisk.durable).nextSstableId
  sstables : after.sstables = e.crash.loadTables (foldManifestImage e.manifestDisk.durable).live
  walTruncSeq : after.walTruncSeq =
    min (foldManifestImage e.manifestDisk.durable).walTruncSeq (loadedMax after.sstables)
  readWatermark : after.readWatermark = kNoSeq
  vlogGen_ne : after.vlogGen ≠ 0

lemma restart_eq (e : WalEngine) : e.restart = e.crash.recover := rfl

lemma restart_spec (hlsm : e.lsm = true) :
    Restarted e e.restart ∧ ∃ base, Recovered.Replays e.crash e.restart base := by
  obtain ⟨hafter, hbase⟩ := @recover_spec e.crash hlsm
  rw [← restart_eq] at hafter hbase
  have himage : e.crash.manifestDisk.image = e.manifestDisk.durable := Disk.image_crash _
  have htip := hafter.manifestTip
  have hstarted := hafter.manifestStarted
  have hnext := hafter.nextSstableId
  have htables := hafter.sstables
  have htrunc := hafter.walTruncSeq
  rw [himage] at htip hstarted hnext htables htrunc
  refine ⟨?_, hbase⟩
  exact
    { lsm := hafter.lsm
      config := hafter.config
      io := hafter.io
      disk := hafter.disk
      manifestDisk := hafter.manifestDisk
      factory := hafter.factory
      manifestTip := htip
      manifestStarted := by
        rw [hstarted]
        cases e.manifestDisk.durable <;> rfl
      nextSstableId := hnext
      sstables := htables
      walTruncSeq := htrunc
      readWatermark := hafter.readWatermark
      vlogGen_ne := hafter.vlogGen_ne (Nat.pos_iff_ne_zero.mp
        (lt_of_lt_of_le (by decide) (le_max_left kDefaultVlogBaseId e.vlogBaseId))) }

/-! ### Replaying a log without gaps -/

def NumberedFrom (first : Seq) (records : List WalRecord) : Prop :=
  records.map Entry.seq = List.range' first records.length

variable {records : List WalRecord}

lemma NumberedFrom.cons {first : Seq} {r : WalRecord} (h : NumberedFrom first (r :: records)) :
    r.seq = first ∧ NumberedFrom (first + 1) records := by
  exact cons.inj h

lemma steps_replayRecord (hresolve : ∀ r ∈ records, r.vlog = true → (e.derefValue r.value).isSome)
    {r : Replay} (hexpect : e.walTruncSeq < r.expect) (hnumbers : NumberedFrom r.expect records) :
    steps e.replayRecord records r =
      { mem := records.foldl insert r.mem
        lastSeq := records.foldl (fun last record ↦ max last record.seq) r.lastSeq
        expect := r.expect + records.length } := by
  induction records generalizing r with
  | nil => rfl
  | cons record records ih =>
    obtain ⟨hseq, hrest⟩ := hnumbers.cons
    have hstep : e.replayRecord r record = some
        { mem := r.mem.insert record
          lastSeq := max r.lastSeq record.seq
          expect := r.expect + 1 } := by
      rw [replayRecord, if_neg (by rw [hseq]; exact not_le.mpr hexpect),
        if_neg (not_not.mpr hseq), if_neg]
      rintro ⟨hvlog, hnone⟩
      have hsome := hresolve record mem_cons_self hvlog
      rw [Option.isNone_iff_eq_none.mp hnone] at hsome
      cases hsome
    rw [steps, hstep]
    dsimp only
    rw [ih (forall_mem_cons.mp hresolve).2 (Nat.lt_succ_of_lt hexpect) hrest,
      foldl_cons, foldl_cons, length_cons]
    congr 1
    rw [Nat.add_assoc, Nat.add_comm 1]

lemma foldl_insert_spec {first : Seq} {m : Memtable}
    (hnumbers : NumberedFrom first records) (hasc : Ascending m.entries)
    (hbelow : ∀ v ∈ m.entries, v.seq < first) :
    Ascending (records.foldl insert m).entries ∧
      ∀ v, v ∈ (records.foldl insert m).entries ↔ v ∈ m.entries ∨ v ∈ records := by
  induction records generalizing first m with
  | nil => exact ⟨hasc, fun v ↦ by simp⟩
  | cons record records ih =>
    obtain ⟨hseq, hrest⟩ := hnumbers.cons
    obtain ⟨hasc', hmem⟩ := ih hrest (m := m.insert record)
      (Memtable.Ascending.place hasc fun d hd _ ↦ hseq ▸ (hbelow d hd).le)
      (fun v hv ↦ by
        rcases mem_place.mp hv with rfl | hold
        · exact hseq ▸ Nat.lt_succ_self _
        · exact Nat.lt_succ_of_lt (hbelow v hold))
    refine ⟨hasc', fun v ↦ ?_⟩
    rw [foldl_cons, hmem, mem_cons]
    change v ∈ place record m.entries ∨ _ ↔ _
    rw [mem_place]
    tauto

lemma foldl_max_of_numbered {first last : Seq}
    (hnumbers : NumberedFrom first records) (hfirst : first ≤ last + 1) :
    records.foldl (fun last record ↦ max last record.seq) last =
      max last (first + records.length - 1) := by
  induction records generalizing first last with
  | nil =>
    rw [foldl_nil, max_eq_left]
    exact Nat.sub_le_of_le_add hfirst
  | cons record records ih =>
    obtain ⟨hseq, hrest⟩ := hnumbers.cons
    have hnext : first + 1 ≤ max last first + 1 := Nat.succ_le_succ (le_max_right _ _)
    have hlast : first ≤ first + (records.length + 1) - 1 := Nat.le_add_right _ _
    rw [foldl_cons, hseq, ih hrest hnext, length_cons, max_assoc,
      Nat.add_right_comm, Nat.add_assoc, max_eq_right hlast]

/-! ### The first table -/

def firstInstall (entries : List SstEntry) : ManifestRecord where
  entryNo := 1
  kind := .install 0 (build entries).bytes.length
    (build entries).minSeq (build entries).maxSeq

/-- The manifest starts with the install record of a table, and its disk with the table, which has
the values of its versions. -/
structure FirstTable (e : WalEngine) (entries : List SstEntry) : Prop where
  fits : TableFits entries
  ascending : Ascending entries
  durably : ∀ v ∈ entries, e.Durably v
  records : ∃ rest, HoldsRecords manifestHeader encode e.manifestDisk.durable
    (firstInstall entries :: rest) ∧ ∀ r ∈ rest.head?, r.entryNo = 2
  image : ∃ tail, (e.factory 0).durable = (build entries).bytes ++ tail

namespace FirstTable

variable {e : WalEngine} {entries : List SstEntry}

lemma firstInstall_fits (h : TableFits entries) : (firstInstall entries).Fits :=
  ⟨show 1 < 2 ^ 64 by decide, show 0 < 2 ^ 64 by decide, h.bytes_lt, h.minSeq_lt, h.maxSeq_lt⟩

lemma foldManifestImage_eq (h : e.FirstTable entries) :
    foldManifestImage e.manifestDisk.durable =
      { live := [{ sstableId := 0, sstLen := (build entries).bytes.length,
                   maxSeq := (build entries).maxSeq }]
        nextSstableId := 1
        manifestTip := 1 } := by
  obtain ⟨rest, hholds, hnext⟩ := h.records
  rw [foldManifestImage_eq_steps hholds, map_cons,
    wrap_eq_self (firstInstall_fits h.fits), steps]
  change steps foldManifest (rest.map wrap) _ = _
  cases rest with
  | nil => rfl
  | cons second rest =>
    have hsecond : second.entryNo = 2 := hnext second rfl
    have hrefuse : ∀ f, foldManifest f second.wrap = none := by
      intro f
      refine if_pos ?_
      rw [wrap, hsecond]
      exact show 2 % 2 ^ 64 ≠ 1 by decide
    rw [map_cons, steps, hrefuse]
    rfl

lemma loadTables_eq (h : e.FirstTable entries) :
    e.crash.loadTables (foldManifestImage e.manifestDisk.durable).live =
      if BloomFilter.SizeFits (distinctKeys entries).length then
        [adoptBuilt (build entries) 0]
      else [] := by
  obtain ⟨tail, htail⟩ := h.image
  have himage : (e.crash.factory 0).image = (build entries).bytes ++ tail :=
    (Disk.image_crash _).trans htail
  have hload : e.crash.loadTable
      { sstableId := 0, sstLen := (build entries).bytes.length, maxSeq := (build entries).maxSeq } =
      if BloomFilter.SizeFits (distinctKeys entries).length then
        some (adoptBuilt (build entries) 0)
      else none := by
    rw [loadTable, if_neg (not_lt.mpr (kSstFooterBytes_le entries)), Disk.read_zero himage]
    exact parse_build h.fits 0
  have hresolve : e.crash.vlogPointersResolve
      (adoptBuilt (build entries) 0) = true := by
    rw [vlogPointersResolve, collectEntries_adoptBuilt, all_eq_true]
    intro v hv
    cases hvlog : v.vlog with
    | false => rfl
    | true => exact h.durably v hv hvlog
  rw [h.foldManifestImage_eq, loadTables, hload]
  split_ifs
  · simp only [hresolve, Bool.not_true, Bool.and_false, Bool.false_eq_true, if_false]
    rfl
  · rfl

end FirstTable

/-! ### What survives a crash -/

def firstTables : Option (List SstEntry) → List SSTableReader
  | none => []
  | some entries =>
    if BloomFilter.SizeFits (distinctKeys entries).length then
      [adoptBuilt (build entries) 0]
    else []

variable {first : Option (List SstEntry)}

lemma mem_firstTables {t : SSTableReader}
    (ht : t ∈ firstTables first) : ∃ entries, first = some entries ∧
      BloomFilter.SizeFits (distinctKeys entries).length ∧
      t = adoptBuilt (build entries) 0 ∧ firstTables first = [t] := by
  cases first with
  | none => cases ht
  | some entries =>
    rw [firstTables] at ht ⊢
    split_ifs at ht ⊢ with hsize
    · obtain rfl := mem_singleton.mp ht
      exact ⟨entries, rfl, hsize, rfl, rfl⟩
    · cases ht

lemma seq_le_loadedMax {t : SSTableReader}
    (ht : t ∈ firstTables first) {v : Entry} (hv : v ∈ t.collectEntries) :
    v.seq ≤ loadedMax (firstTables first) := by
  obtain ⟨entries, rfl, -, rfl, hone⟩ := mem_firstTables ht
  rw [collectEntries_adoptBuilt] at hv
  rw [hone]
  exact (le_maxSeq hv).trans (le_max_right _ _)

/-- What the synced bytes hold: log records that are numbered from 1 and have their values, and
the first table of the manifest when there is one. -/
structure OnDisk (e : WalEngine) (synced : List WalRecord) (first : Option (List SstEntry)) :
    Prop where
  wal : HoldsRecords walHeader encodeRecord e.disk.durable synced
  numbered : NumberedFrom 1 synced
  fits : ∀ r ∈ synced, r.Fits
  durably : ∀ r ∈ synced, e.Durably r
  noTable : first = none → e.manifestDisk.durable = []
  table : ∀ entries, first = some entries → e.FirstTable entries

namespace OnDisk

variable {e : WalEngine} {synced : List WalRecord} {first : Option (List SstEntry)}

lemma loadTables_eq (h : e.OnDisk synced first) :
    e.crash.loadTables (foldManifestImage e.manifestDisk.durable).live = firstTables first ∧
      (foldManifestImage e.manifestDisk.durable).walTruncSeq = kNoSeq := by
  cases first with
  | none =>
    rw [h.noTable rfl]
    exact ⟨rfl, rfl⟩
  | some entries =>
    have htable := h.table entries rfl
    refine ⟨htable.loadTables_eq, ?_⟩
    rw [htable.foldManifestImage_eq]

lemma restart (h : e.OnDisk synced first) (hlsm : e.lsm = true) :
    e.restart.sstables = firstTables first ∧ Ascending e.restart.mem.entries ∧
      (∀ v, v ∈ e.restart.mem.entries ↔ v ∈ synced) ∧
      e.restart.lastSeq = max (loadedMax (firstTables first)) synced.length := by
  obtain ⟨hafter, base, hbase⟩ := restart_spec hlsm
  obtain ⟨hload, htrunc⟩ := h.loadTables_eq
  have htables : e.restart.sstables = firstTables first := hafter.sstables.trans hload
  have hzero : base.walTruncSeq = 0 := by
    rw [hbase.walTruncSeq, hafter.walTruncSeq, htrunc]
    exact Nat.zero_min _
  have hresolve : ∀ r ∈ synced, r.vlog = true → (base.derefValue r.value).isSome := by
    intro r hr hvlog
    rw [@derefValue_congr e.crash base hbase.lsm hbase.factory]
    exact h.durably r hr hvlog
  have himage : e.crash.disk.image = e.disk.durable := Disk.image_crash _
  have hreplay : base.replayImage e.crash.disk.image =
      { mem := synced.foldl insert { resident := e.mem.resident }
        lastSeq := synced.foldl (fun last record ↦ max last record.seq)
          (loadedMax (firstTables first))
        expect := 1 + synced.length } := by
    rw [himage, replayImage_eq_steps base h.fits h.wal, steps_replayRecord hresolve, hbase.mem,
      hbase.lastSeq, htables, hzero]
    · rfl
    · exact Nat.lt_succ_self _
    · rw [hzero]
      exact h.numbered
  obtain ⟨hmem, hlast, -⟩ := hbase.replayed
  rw [hreplay] at hmem hlast
  obtain ⟨hasc, hmembers⟩ := foldl_insert_spec h.numbered
    (m := { resident := e.mem.resident }) List.Pairwise.nil nofun
  refine ⟨htables, by rw [hmem]; exact hasc, fun v ↦ ?_, ?_⟩
  · rw [hmem, hmembers]
    simp
  · rw [hlast, foldl_max_of_numbered h.numbered (Nat.le_add_left _ _), Nat.add_comm 1,
      Nat.add_sub_cancel]

lemma restart_readable (h : e.OnDisk synced first) (hlsm : e.lsm = true) :
    e.restart.Readable := by
  obtain ⟨htables, hasc, -, -⟩ := h.restart hlsm
  refine ⟨hasc, fun t ht ↦ ?_⟩
  obtain ⟨entries, hsome, hsize, rfl, -⟩ := mem_firstTables (htables ▸ ht)
  exact wellFormed_adoptBuilt (h.table entries hsome).ascending hsize 0

end OnDisk

end Lockstep.Storage.WalEngine
