import Lockstep.Storage.Recovery

/-!
# The disks of a running engine

What an engine has on its disks while no I/O fails: the log holds the records that were written,
numbered from 1, each with its value; the memtable holds none but logged versions; the manifest is
empty or starts with the first table (`Logged`).
-/

namespace Lockstep.Storage.WalEngine

open Library Disk Script ManifestRecord List Option

namespace NumberedFrom

variable {first : Seq} {records more : List WalRecord} {v : WalRecord}

lemma append_iff : NumberedFrom first (records ++ more) ↔
    NumberedFrom first records ∧ NumberedFrom (first + records.length) more := by
  rw [NumberedFrom, map_append, length_append, ← range'_append_1]
  constructor
  · intro h
    exact append_inj h (by rw [length_map, length_range'])
  · rintro ⟨hrecords, hmore⟩
    rw [hrecords, hmore]

lemma mem_bounds (h : NumberedFrom first records) (hv : v ∈ records) :
    first ≤ v.seq ∧ v.seq < first + records.length := by
  have hseq : v.seq ∈ records.map Entry.seq := mem_map_of_mem hv
  rw [h] at hseq
  exact mem_range'_1.mp hseq

lemma seq_le (h : NumberedFrom 1 records) (hv : v ∈ records) : v.seq ≤ records.length := by
  have hbound := (h.mem_bounds hv).2
  rw [Nat.add_comm] at hbound
  exact Nat.le_of_lt_succ hbound

lemma mem_of_le {synced : List WalRecord} (h : NumberedFrom 1 records)
    (hsub : synced <+: records) (hv : v ∈ records) (hle : v.seq ≤ synced.length) :
    v ∈ synced := by
  obtain ⟨rest, rfl⟩ := hsub
  rcases mem_append.mp hv with hfront | hback
  · exact hfront
  · have hbound := ((append_iff.mp h).2.mem_bounds hback).1
    rw [Nat.add_comm] at hbound
    exact absurd hle (not_le.mpr hbound)

lemma concat (h : NumberedFrom first records) (hv : v.seq = first + records.length) :
    NumberedFrom first (records ++ [v]) :=
  append_iff.mpr ⟨h, by rw [NumberedFrom, map_singleton, hv]; rfl⟩

end NumberedFrom

/-! ### The invariant -/

structure NoTable (e : WalEngine) : Prop where
  image : e.manifestDisk.image = []
  tip : e.manifestTip = 0
  next : e.nextSstableId = 0
  disk : (e.factory 0).image = []

/-- The durable manifest starts with the install of the first table. -/
structure TablesFrom (e : WalEngine) (entries : List SstEntry) : Prop where
  records : ∃ rest, HoldsRecords manifestHeader encode e.manifestDisk.durable
    (firstInstall entries :: rest) ∧ (∀ r ∈ rest.head?, r.entryNo = 2) ∧
      (rest = [] → e.manifestTip = 1)
  synced : e.manifestDisk.staged = []
  started : e.manifestStarted = true
  next : 0 < e.nextSstableId

/-- The log holds `records`, the synced ones durably, and the memtable holds no others. -/
structure Logged (e : WalEngine) (synced records : List WalRecord)
    (first : Option (List SstEntry)) : Prop extends e.OnDisk synced first where
  lsm : e.lsm = true
  image : HoldsRecords walHeader encodeRecord e.disk.image records
  synced_le : synced <+: records
  walStarted : e.walStarted = false → e.disk.image = []
  numberedAll : NumberedFrom 1 records
  fitsAll : ∀ r ∈ records, r.Fits
  held : ∀ r ∈ records, e.Held r
  memAscending : Ascending e.mem.entries
  memLogged : ∀ v ∈ e.mem.entries, v ∈ records
  length_le : records.length ≤ e.lastSeq
  vlogGen_ne : e.vlogGen ≠ 0
  manifestEmpty : first = none → e.NoTable
  manifestTables : ∀ entries, first = some entries → e.TablesFrom entries
  tableSeq : ∀ t ∈ firstTables first, ∀ v ∈ t.collectEntries,
    v.seq ≤ e.lastSeq ∧ (v ∈ records ∨ records.length < v.seq)

lemma Logged.start (c : Config) (io : Script) : (c.engine io).Logged [] [] none where
  wal := HoldsRecords.nil
  numbered := rfl
  fits := nofun
  durably := nofun
  noTable _ := rfl
  table := nofun
  lsm := rfl
  image := HoldsRecords.nil
  synced_le := prefix_rfl
  walStarted _ := rfl
  numberedAll := rfl
  fitsAll := nofun
  held := nofun
  memAscending := List.Pairwise.nil
  memLogged := nofun
  length_le := Nat.zero_le _
  vlogGen_ne := Nat.pos_iff_ne_zero.mp
    (lt_of_lt_of_le (by decide) (le_max_left kDefaultVlogBaseId c.vlogBaseId))
  manifestEmpty _ := ⟨rfl, rfl, rfl, rfl⟩
  manifestTables := nofun
  tableSeq := nofun

def walRecords (e : WalEngine) : List WalRecord :=
  let body := streamBody e.disk.image kWalStreamMagic Format.kWalStreamVersion
  RecordStream.front tryDecode body.length body

variable {e after : WalEngine} {synced records : List WalRecord} {first : Option (List SstEntry)}

lemma walRecords_eq (hfits : ∀ r ∈ records, r.Fits)
    (himage : HoldsRecords walHeader encodeRecord e.disk.image records) :
    e.walRecords = records := by
  have hbody := himage.streamBody_eq (by decide) (by decide)
    fun r _ rest ↦ getU32_encodeRecord r rest
  have hpos : ∀ r ∈ records, 0 < (encodeRecord r).length := by
    intro r _
    rw [WalRecord.length_encodeRecord, kWalHeaderBytes]
    omega
  have hall := RecordStream.front_flatMap
    (fun r hr rest ↦ tryDecode_encodeRecord (hfits r hr) rest) rfl
    (RecordStream.length_le_length_flatMap hpos)
  rwa [← hbody] at hall

lemma Logged.walRecords_eq (h : e.Logged synced records first) : e.walRecords = records :=
  WalEngine.walRecords_eq h.fitsAll h.image

lemma OnDisk.walRecords_crash (h : e.OnDisk synced first) : e.crash.walRecords = synced := by
  refine walRecords_eq h.fits ?_
  rw [show e.crash.disk.image = e.disk.durable from image_crash _]
  exact h.wal

lemma FirstTable.of_durable {entries : List SstEntry} (h : e.FirstTable entries)
    (hlsm : after.lsm = e.lsm)
    (hrecords : ∃ rest, HoldsRecords manifestHeader encode
      after.manifestDisk.durable (firstInstall entries :: rest) ∧ ∀ r ∈ rest.head?, r.entryNo = 2)
    (hfactory : ∀ id, (e.factory id).durable <+: (after.factory id).durable) :
    after.FirstTable entries where
  fits := h.fits
  ascending := h.ascending
  durably v hv := (h.durably v hv).of_isPrefix hlsm hfactory
  records := hrecords
  image := by
    obtain ⟨tail, htail⟩ := h.image
    obtain ⟨more, hmore⟩ := hfactory 0
    exact ⟨tail ++ more, by rw [← hmore, htail, append_assoc]⟩

lemma OnDisk.of_durable (h : e.OnDisk synced first) (hlsm : after.lsm = e.lsm)
    (hwal : after.disk.durable = e.disk.durable)
    (hman : after.manifestDisk.durable = e.manifestDisk.durable)
    (hfactory : ∀ id, (e.factory id).durable <+: (after.factory id).durable) :
    after.OnDisk synced first where
  wal := by
    rw [hwal]
    exact h.wal
  numbered := h.numbered
  fits := h.fits
  durably r hr := (h.durably r hr).of_isPrefix hlsm hfactory
  noTable hnone := hman.trans (h.noTable hnone)
  table entries hsome := (h.table entries hsome).of_durable hlsm
    (hman ▸ (h.table entries hsome).records) hfactory

/-! ### Writes -/

variable {before d : Disk}

lemma WrittenTo.durable_eq {started landed : Bool} {record : WalRecord}
    (h : WrittenTo before started record landed d) : d.durable = before.durable := by
  cases h <;> rfl

variable {started : Bool}

lemma WrittenTo.holds {record : WalRecord} (h : WrittenTo before started record true d)
    (himage : HoldsRecords walHeader encodeRecord before.image records)
    (hstarted : started = false → before.image = []) :
    HoldsRecords walHeader encodeRecord d.image (records ++ [record]) := by
  cases h with
  | landed front hfront =>
    rw [image_append, image_append]
    exact (himage.appendFront (hfront.imp_right fun hf ↦ ⟨hf.1, hstarted hf.2⟩)).append record

lemma OnDisk.write (h : e.OnDisk synced first) (key : Key) (value : Value) (tombstone : Bool) :
    (e.write key value tombstone).OnDisk synced first := by
  obtain ⟨_, _, factory, _, _, _, d, hstored, hwritten, heq, -⟩ := e.write_spec key value tombstone
  rw [heq]
  exact h.of_durable rfl hwritten.durable_eq rfl fun id ↦ (hstored.factory_grows id).1.durable

structure Wrote (e after : WalEngine) (record : WalRecord) (value : Value) : Prop where
  seq : record.seq = e.lastSeq + 1
  keeps : after.Keeps record value
  grows : e.FactoryGrows after
  io : after.io = honest
  lastSeq : after.lastSeq = e.lastSeq + 1
  mem : after.mem = e.mem.insert record
  sstables : after.sstables = e.sstables

lemma Logged.write (h : e.Logged synced records first) (hio : e.io = honest)
    (hcount : records.length = e.lastSeq) {key : Key} {value : Value} {tombstone : Bool}
    (hfits : e.WriteFits key value tombstone) :
    ∃ record : WalRecord, record.key = key ∧ record.tombstone = tombstone ∧
      Wrote e (e.write key value tombstone) record value ∧
      (e.write key value tombstone).Logged synced (records ++ [record]) first := by
  obtain ⟨stored, isVlog, factory, len, landed, io, d, hstored, hwritten, heq, hhonest⟩ :=
    e.write_spec key value tombstone
  obtain ⟨rfl, rfl⟩ := hhonest hio
  have hdisk := h.toOnDisk.write key value tombstone
  rw [heq] at hdisk ⊢
  set record : WalRecord :=
    { seq := e.lastSeq + 1, key := key, value := stored, tombstone := tombstone, vlog := isVlog }
    with hrecord
  have hseq : record.seq = 1 + records.length := by rw [hcount, Nat.add_comm 1]
  have hrecordFits : record.Fits :=
    ⟨hfits.1, hfits.2.1, (hstored.fits hfits.2.2.1).1, (hstored.fits hfits.2.2.1).2⟩
  obtain ⟨hkeeps, hnew⟩ := @Stored.holds e
    { e with
      lastSeq := e.lastSeq + 1
      io := honest
      factory := factory
      vlogLen := len
      disk := d
      walStarted := true
      mem := e.mem.insert record } record value tombstone stored isVlog factory len
    hstored hfits.2.2.2 h.lsm rfl rfl rfl rfl rfl rfl
  refine ⟨record, rfl, rfl,
    ⟨rfl, hkeeps, fun id ↦ (hstored.factory_grows id).1, rfl, rfl, rfl, rfl⟩, ?_⟩
  exact
    { hdisk with
      lsm := h.lsm
      image := hwritten.holds h.image h.walStarted
      synced_le := h.synced_le.trans (prefix_append _ _)
      walStarted := nofun
      numberedAll := h.numberedAll.concat hseq
      fitsAll := forall_mem_append.mpr ⟨h.fitsAll, forall_mem_singleton.mpr hrecordFits⟩
      held := forall_mem_append.mpr ⟨fun r hr ↦ (h.held r hr).of_grows rfl
        (fun id ↦ (hstored.factory_grows id).1) rfl rfl hstored.len_le,
        forall_mem_singleton.mpr hnew⟩
      memAscending := Memtable.Ascending.place h.memAscending fun v hv _ ↦
        hseq ▸ (h.numberedAll.mem_bounds (h.memLogged v hv)).2.le
      memLogged := by
        intro v hv
        rcases Memtable.mem_place.mp hv with rfl | hold
        · exact mem_append_right _ mem_cons_self
        · exact mem_append_left _ (h.memLogged v hold)
      length_le := by
        rw [length_append, length_singleton, hcount]
      vlogGen_ne := h.vlogGen_ne
      manifestEmpty := fun hnone ↦ by
        obtain ⟨himage, htip, hnext, hzero⟩ := h.manifestEmpty hnone
        exact ⟨himage, htip, hnext,
          (congrArg Disk.image (hstored.factory_of_ne h.vlogGen_ne.symm)).trans hzero⟩
      manifestTables := fun entries hsome ↦
        ⟨(h.manifestTables entries hsome).records, (h.manifestTables entries hsome).synced,
          (h.manifestTables entries hsome).started, (h.manifestTables entries hsome).next⟩
      tableSeq := by
        intro t ht v hv
        obtain ⟨hle, hmem⟩ := h.tableSeq t ht v hv
        refine ⟨Nat.le_succ_of_le hle, .inl (mem_append_left _ ?_)⟩
        rcases hmem with hmem | hlt
        · exact hmem
        · exact absurd hle (not_le.mpr (hcount ▸ hlt)) }

/-! ### Syncs -/

lemma Logged.onDisk_of_sync (h : e.Logged synced records first) (hlsm : after.lsm = e.lsm)
    (hwal : after.disk = e.disk.sync) (hman : after.manifestDisk = e.manifestDisk)
    (hfactory : ∀ id, after.factory id = e.factory id ∨ after.factory id = (e.factory id).sync)
    (hvlog : e.valueLogActive = true → after.factory e.vlogGen = (e.factory e.vlogGen).sync) :
    after.OnDisk records first where
  wal := by
    rw [hwal]
    exact h.image
  numbered := h.numberedAll
  fits := h.fitsAll
  durably r hr := by
    refine (h.held r hr).durably hlsm (fun id ↦ Disk.Grows.of_eq_or_sync (hfactory id)) ?_
    intro hactive _
    rw [hvlog hactive]
    exact Disk.Grows.refl _
  noTable hnone := by
    rw [hman]
    exact h.noTable hnone
  table entries hsome := (h.table entries hsome).of_durable hlsm
    (hman ▸ (h.table entries hsome).records)
    fun id ↦ (Disk.Grows.of_eq_or_sync (hfactory id)).durable

lemma Logged.onDisk_sync (h : e.Logged synced records first) (hhalts : e.io.Halts) :
    (e.sync.1 = true → e.sync.2.OnDisk records first) ∧
      (e.sync.1 = false → e.sync.2.OnDisk synced first) := by
  obtain ⟨ok, io, factory, d, heq, hfactory, hsynced, hsame, -⟩ := e.sync_spec
  rw [heq]
  refine ⟨fun hok ↦ ?_, fun hno ↦ ?_⟩
  · exact h.onDisk_of_sync rfl (hsynced hok).1 rfl hfactory (hsynced hok).2
  · exact h.toOnDisk.of_durable rfl (congrArg durable (hsame hno hhalts)) rfl
      fun id ↦ (Disk.Grows.of_eq_or_sync (hfactory id)).durable

structure Settled (e after : WalEngine) : Prop where
  grows : e.FactoryGrows after
  io : after.io = honest
  lastSeq : after.lastSeq = e.lastSeq
  mem : after.mem = e.mem
  sstables : after.sstables = e.sstables

structure SameManifest (e after : WalEngine) : Prop where
  disk : after.manifestDisk = e.manifestDisk
  tip : after.manifestTip = e.manifestTip
  started : after.manifestStarted = e.manifestStarted
  next : after.nextSstableId = e.nextSstableId

section

variable (h : e.Logged synced records first)

include h

lemma Logged.of_frame {synced' : List WalRecord}
    (hle : synced' <+: records) (hdisk : after.OnDisk synced' first) (hlsm : after.lsm = e.lsm)
    (hmem : after.mem = e.mem) (hlast : after.lastSeq = e.lastSeq) (hman : SameManifest e after)
    (himage : after.disk.image = e.disk.image) (hstarted : after.walStarted = e.walStarted)
    (hgen : after.vlogGen = e.vlogGen) (hheld : ∀ r ∈ records, after.Held r)
    (hfactory : ∀ id, after.factory id = e.factory id ∨ after.factory id = (e.factory id).sync) :
    after.Logged synced' records first :=
  { hdisk with
    lsm := hlsm.trans h.lsm
    image := himage ▸ h.image
    synced_le := hle
    walStarted := fun hno ↦ himage.trans (h.walStarted (hstarted ▸ hno))
    numberedAll := h.numberedAll
    fitsAll := h.fitsAll
    held := hheld
    memAscending := hmem ▸ h.memAscending
    memLogged := hmem ▸ h.memLogged
    length_le := hlast ▸ h.length_le
    vlogGen_ne := hgen ▸ h.vlogGen_ne
    manifestEmpty := by
      intro hnone
      obtain ⟨himage, htip, hnext, hzero⟩ := h.manifestEmpty hnone
      refine ⟨by rw [hman.disk, himage], hman.tip.trans htip, hman.next.trans hnext, ?_⟩
      rcases hfactory 0 with hsame | hsame
      · rw [hsame, hzero]
      · rw [hsame, image_sync, hzero]
    manifestTables := by
      intro entries hsome
      obtain ⟨hrecords, hstaged, hmanStarted, hnext⟩ := h.manifestTables entries hsome
      refine ⟨?_, by rw [hman.disk, hstaged], hman.started.trans hmanStarted, hman.next ▸ hnext⟩
      rw [hman.disk, hman.tip]
      exact hrecords
    tableSeq := hlast ▸ h.tableSeq }

lemma Logged.sync (hio : e.io = honest) :
    Settled e e.sync.2 ∧ e.sync.2.Logged records records first := by
  obtain ⟨ok, io, factory, d, heq, hfactory, hsynced, -, hhonest⟩ := e.sync_spec
  obtain ⟨rfl, rfl⟩ := hhonest hio
  obtain ⟨rfl, hvlog⟩ := hsynced rfl
  have hdisk := @Logged.onDisk_of_sync e
    { e with io := honest, factory := factory, disk := e.disk.sync } _ _ _ h rfl rfl rfl
    hfactory hvlog
  have hsettled : Settled e
      { e with io := honest, factory := factory, disk := e.disk.sync } :=
    ⟨fun id ↦ Disk.Grows.of_eq_or_sync (hfactory id), rfl, rfl, rfl, rfl⟩
  rw [heq]
  exact ⟨hsettled, h.of_frame prefix_rfl hdisk rfl rfl rfl ⟨rfl, rfl, rfl, rfl⟩
    (image_sync _) rfl rfl (fun r hr ↦ .inl (hdisk.durably r hr)) hfactory⟩

lemma Logged.watermark (hio : e.io = honest)
    (bound : Seq) : Settled e (e.setReadWatermark bound) ∧
      (e.setReadWatermark bound).Logged synced records first := by
  have hsettled : Settled e (e.setReadWatermark bound) :=
    ⟨fun _ ↦ Disk.Grows.refl _, hio, rfl, rfl, rfl⟩
  refine ⟨hsettled, h.of_frame h.synced_le
    (h.toOnDisk.of_durable rfl rfl rfl fun _ ↦ prefix_rfl) rfl rfl rfl ⟨rfl, rfl, rfl, rfl⟩
    rfl rfl rfl (fun r hr ↦ ?_) fun _ ↦ .inl rfl⟩
  exact (h.held r hr).of_grows rfl hsettled.grows rfl rfl le_rfl

lemma Logged.withIo (io : Script) : Logged { e with io := io } synced records first := by
  refine h.of_frame h.synced_le (h.toOnDisk.of_durable rfl rfl rfl fun _ ↦ prefix_rfl)
    rfl rfl rfl ⟨rfl, rfl, rfl, rfl⟩ rfl rfl rfl (fun r hr ↦ ?_) fun _ ↦ .inl rfl
  exact (h.held r hr).of_grows rfl (fun _ ↦ Disk.Grows.refl _) rfl rfl le_rfl

end

/-! ### Flushes -/

variable {record : ManifestRecord}

lemma LoggedTo.durable_eq (h : LoggedTo before started record false d)
    : d.durable = before.durable := by
  cases h <;> rfl

lemma LoggedTo.holds (h : LoggedTo before started record true d) {logged : List ManifestRecord}
    (himage : HoldsRecords manifestHeader encode before.image logged)
    (hstarted : started = false → before.image = []) :
    HoldsRecords manifestHeader encode d.durable (logged ++ [record]) ∧
      d.staged = [] := by
  cases h with
  | synced front hfront =>
    refine ⟨?_, rfl⟩
    rw [durable_sync, image_append, image_append]
    exact (himage.appendFront (hfront.imp_right fun hf ↦ ⟨hf.1, hstarted hf.2⟩)).append record

lemma Flushed.grows (h : Flushed e after) : e.FactoryGrows after := by
  cases h with
  | stopped io factory next hnext hgrows => exact hgrows
  | failed io io' factory man hfactory =>
    exact fun id ↦
      (Disk.Grows.of_eq_or_sync (hfactory id)).trans (grows_update_table factory _ _ id)
  | done io io' factory man hfactory =>
    exact fun id ↦
      (Disk.Grows.of_eq_or_sync (hfactory id)).trans (grows_update_table factory _ _ id)

def flushFirst (e : WalEngine) (first : Option (List SstEntry)) : Option (List SstEntry) :=
  some (first.getD e.mem.flushEntries)

lemma Logged.logged_holds (h : e.Logged synced records first) {man : Disk}
    (hlog : LoggedTo e.manifestDisk e.manifestStarted
      { entryNo := e.manifestTip + 1, kind := e.installKind e.mem.flushEntries } true man) :
    (∃ rest, HoldsRecords manifestHeader encode man.durable
      (firstInstall (first.getD e.mem.flushEntries) :: rest) ∧
      (∀ r ∈ rest.head?, r.entryNo = 2) ∧ (rest = [] → e.manifestTip = 0)) ∧ man.staged = [] := by
  cases first with
  | none =>
    obtain ⟨himage, htip, hnext, -⟩ := h.manifestEmpty rfl
    have hnil : HoldsRecords manifestHeader encode e.manifestDisk.image [] := by
      rw [himage]
      exact HoldsRecords.nil
    obtain ⟨hholds, hstaged⟩ := hlog.holds hnil fun _ ↦ himage
    refine ⟨⟨[], ?_, fun r hr ↦ absurd hr (not_mem_none r), fun _ ↦ htip⟩, hstaged⟩
    rw [htip, installKind, hnext] at hholds
    exact hholds
  | some entries =>
    have htables := h.manifestTables entries rfl
    obtain ⟨rest, hholds, hnext, htip⟩ := htables.records
    have himage : e.manifestDisk.image = e.manifestDisk.durable := by
      rw [Disk.image, htables.synced, append_nil]
    obtain ⟨hlogged, hstaged⟩ := hlog.holds (himage ▸ hholds)
      fun hno ↦ absurd (hno.symm.trans htables.started) Bool.false_ne_true
    refine ⟨⟨_, hlogged, ?_, fun hnil ↦ absurd hnil (by simp)⟩, hstaged⟩
    cases rest with
    | nil =>
      intro r hr
      rw [← some.inj hr, htip rfl]
    | cons second rest => exact fun r hr ↦ hnext r hr

lemma Logged.onDisk_flush (h : e.Logged synced records first)
    (hfits : TableFits e.mem.flushEntries) (hflush : Flushed e after) :
    after.OnDisk synced first ∧ after.sstables = e.sstables ∨
      after.OnDisk synced (e.flushFirst first) ∧
        after.sstables = e.sstables ++ [e.nextTable e.mem.flushEntries] := by
  have hgrows := hflush.grows
  cases hflush with
  | stopped =>
    exact .inl ⟨h.toOnDisk.of_durable rfl rfl rfl fun id ↦ (hgrows id).durable, rfl⟩
  | failed io io' factory man _ hlog =>
    exact .inl ⟨h.toOnDisk.of_durable rfl rfl hlog.durable_eq fun id ↦ (hgrows id).durable, rfl⟩
  | done io io' factory man hfactory hvlog hlog hne =>
    obtain ⟨⟨rest, hholds, hnext, -⟩, -⟩ := h.logged_holds hlog
    refine .inr ⟨?_, rfl⟩
    exact
      { wal := h.wal
        numbered := h.numbered
        fits := h.fits
        durably := fun r hr ↦ (h.durably r hr).of_isPrefix rfl fun id ↦ (hgrows id).durable
        noTable := nofun
        table := by
          intro entries hentries
          obtain rfl := some.inj hentries
          cases first with
          | some entries =>
            exact (h.table entries rfl).of_durable rfl ⟨rest, hholds, hnext⟩
              fun id ↦ (hgrows id).durable
          | none =>
            obtain ⟨-, -, hzero, hempty⟩ := h.manifestEmpty rfl
            refine ⟨hfits, h.memAscending.filter _, fun v hv ↦ ?_, ⟨rest, hholds, hnext⟩, ⟨[], ?_⟩⟩
            · refine (h.held v (h.memLogged v (mem_filter.mp hv).1)).durably rfl hgrows ?_
              intro hactive hlen
              rw [← hvlog hactive hlen]
              exact grows_update_table factory _ _ _
            · have himage : (factory 0).image = [] := by
                rcases hfactory 0 with hsame | hsame
                · rw [hsame, hempty]
                · rw [hsame, image_sync, hempty]
              change (Function.update factory e.nextSstableId _ 0).durable = _
              rw [hzero, Function.update_self, durable_sync, image_append, himage]
              exact (append_nil _).symm }

structure Moved (e after : WalEngine) : Prop where
  grows : e.FactoryGrows after
  io : after.io = honest
  lastSeq : after.lastSeq = e.lastSeq
  mem : after.mem = e.mem.eraseFlushable
  sstables : after.sstables = e.sstables ++ [e.nextTable e.mem.flushEntries]

lemma Logged.tableSeq_flush (h : e.Logged synced records first) :
    ∀ t ∈ firstTables (e.flushFirst first), ∀ v ∈ t.collectEntries,
      v.seq ≤ e.lastSeq ∧ (v ∈ records ∨ records.length < v.seq) := by
  cases first with
  | some entries => exact h.tableSeq
  | none =>
    intro t ht v hv
    obtain ⟨entries, hsome, -, rfl, -⟩ := mem_firstTables ht
    obtain rfl := some.inj hsome
    rw [collectEntries_adoptBuilt] at hv
    have hlogged := h.memLogged v (mem_filter.mp hv).1
    exact ⟨(h.numberedAll.seq_le hlogged).trans h.length_le, .inl hlogged⟩

lemma Logged.flush (h : e.Logged synced records first) (hio : e.io = honest)
    (hfits : TableFits e.mem.flushEntries) (hflush : Flushed e after) :
    e.mem.flushEntries = [] ∧ Settled e after ∧ after.Logged synced records first ∨
      e.mem.flushEntries ≠ [] ∧ Moved e after ∧
        after.Logged synced records (e.flushFirst first) := by
  have hgrows := hflush.grows
  have hdisk := h.onDisk_flush hfits hflush
  have hheld : after.lsm = e.lsm → after.valueLogActive = e.valueLogActive →
      after.vlogGen = e.vlogGen → after.vlogLen = e.vlogLen → ∀ r ∈ records, after.Held r :=
    fun hlsm hactive hgen hlen r hr ↦
      (h.held r hr).of_grows hlsm hgrows hactive hgen hlen.ge
  cases hflush with
  | stopped io factory next hnext _ hhonest =>
    obtain ⟨hempty, rfl, rfl, hfactory⟩ := hhonest hio
    have hsettled : Settled e { e with io := honest, factory := factory } :=
      ⟨hgrows, rfl, rfl, rfl, rfl⟩
    have hsame := @OnDisk.of_durable e { e with io := honest, factory := factory } _ _
      h.toOnDisk rfl rfl rfl fun id ↦ (hgrows id).durable
    exact .inl ⟨hempty, hsettled, h.of_frame h.synced_le hsame rfl rfl rfl ⟨rfl, rfl, rfl, rfl⟩
      rfl rfl rfl (hheld rfl rfl rfl rfl) hfactory⟩
  | failed _ _ _ _ _ _ hhonest => exact absurd hio hhonest
  | done io io' factory man hfactory hvlog hlog hne hhonest =>
    obtain rfl := hhonest hio
    obtain ⟨⟨rest, hholds, hnext, htip⟩, hstaged⟩ := h.logged_holds hlog
    have hinstalled := hdisk.resolve_left fun hno ↦ by simpa using hno.2
    refine .inr ⟨hne, ⟨hgrows, rfl, rfl, rfl, rfl⟩, ?_⟩
    exact
      { hinstalled.1 with
        lsm := h.lsm
        image := h.image
        synced_le := h.synced_le
        walStarted := h.walStarted
        numberedAll := h.numberedAll
        fitsAll := h.fitsAll
        held := hheld rfl rfl rfl rfl
        memAscending := by
          rw [Memtable.eraseFlushable_entries]
          exact h.memAscending.filter _
        memLogged := by
          intro v hv
          rw [Memtable.eraseFlushable_entries] at hv
          exact h.memLogged v (mem_filter.mp hv).1
        length_le := h.length_le
        vlogGen_ne := h.vlogGen_ne
        manifestEmpty := nofun
        manifestTables := by
          intro entries hentries
          obtain rfl := some.inj hentries
          refine ⟨⟨rest, hholds, hnext, fun hnil ↦ ?_⟩, hstaged, rfl, Nat.succ_pos _⟩
          exact congrArg (· + 1) (htip hnil)
        tableSeq := h.tableSeq_flush }

/-! ### Restarts -/

/-- A restart finds exactly the synced records. -/
lemma Logged.restart (h : e.Logged synced records first) :
    e.restart.Logged synced synced first := by
  obtain ⟨hafter, base, hbase⟩ := restart_spec h.lsm
  obtain ⟨-, hasc, hmem, hlast⟩ := h.toOnDisk.restart h.lsm
  have hdisk : e.restart.OnDisk synced first := by
    refine h.toOnDisk.of_durable hafter.lsm ?_ ?_ fun id ↦ ?_
    · rw [hafter.disk, durable_crash]
    · rw [hafter.manifestDisk, durable_crash]
    · simp only [hafter.factory, durable_crash, prefix_rfl]
  exact
    { hdisk with
      lsm := hafter.lsm.trans h.lsm
      image := by
        rw [hafter.disk, image_crash]
        exact h.wal
      synced_le := List.prefix_rfl
      walStarted := by
        intro hno
        rw [hbase.replayed.2.2, Bool.not_eq_false', List.isEmpty_iff] at hno
        rw [hafter.disk]
        exact hno
      numberedAll := h.numbered
      fitsAll := h.fits
      held := fun r hr ↦ .inl (hdisk.durably r hr)
      memAscending := hasc
      memLogged := fun v hv ↦ (hmem v).mp hv
      length_le := hlast ▸ le_max_right _ _
      vlogGen_ne := hafter.vlogGen_ne
      manifestEmpty := by
        intro hnone
        have hempty := h.noTable hnone
        refine ⟨?_, ?_, ?_, ?_⟩
        · rw [hafter.manifestDisk, image_crash, hempty]
        · rw [hafter.manifestTip, hempty]
          rfl
        · rw [hafter.nextSstableId, hempty]
          rfl
        · rw [hafter.factory, image_crash]
          exact (append_eq_nil_iff.mp (h.manifestEmpty hnone).disk).1
      manifestTables := by
        intro entries hsome
        have hfold := (h.table entries hsome).foldManifestImage_eq
        obtain ⟨rest, hholds, hnext, -⟩ := (h.manifestTables entries hsome).records
        refine ⟨⟨rest, ?_, hnext, fun _ ↦ ?_⟩, ?_, ?_, ?_⟩
        · rw [hafter.manifestDisk]
          exact hholds
        · rw [hafter.manifestTip, hfold]
        · rw [hafter.manifestDisk]
          rfl
        · rw [hafter.manifestStarted, Bool.not_eq_true', isEmpty_eq_false_iff]
          intro hnil
          obtain ⟨front, -, himage⟩ := hholds
          rw [hnil] at himage
          have hrecord := (append_eq_nil_iff.mp (append_eq_nil_iff.mp himage.symm).2).1
          exact absurd (congrArg length hrecord) (length_encode_pos _).ne'
        · rw [hafter.nextSstableId, hfold]
          exact Nat.one_pos
      tableSeq := by
        intro t ht v hv
        refine ⟨hlast ▸ (seq_le_loadedMax ht hv).trans (le_max_left _ _), ?_⟩
        by_cases hfound : v.seq ≤ synced.length
        · refine .inl ?_
          rcases (h.tableSeq t ht v hv).2 with hlogged | hgone
          · exact h.numberedAll.mem_of_le h.synced_le hlogged hfound
          · exact absurd (hfound.trans h.synced_le.length_le) (not_le.mpr hgone)
        · exact .inr (not_le.mp hfound) }

end Lockstep.Storage.WalEngine
