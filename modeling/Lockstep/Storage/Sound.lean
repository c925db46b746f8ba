import Lockstep.Storage.EngineSteps
import Lockstep.Storage.Oracle

/-!
# An engine that reads soundly

Without a value log, along any run of actions and under any outcomes of the I/O, the memtable and
the tables stay in the order the read path relies on, no two versions share a number, and the tables
have distinct ids (`Sound.exec`). The Bloom filters of the tables that are built on the way must
have a size that fits (`BloomFits`).
-/

namespace Lockstep.Storage.WalEngine

open Library Newest SSTableReader Memtable BloomFilter SSTableBuilder List

/-- The invariant of an engine without a value log. -/
structure Sound (e : WalEngine) : Prop extends e.Readable where
  lsm : e.lsm = true
  inline : e.valueThreshold = 0
  seq_le : ∀ v ∈ e.versions, v.seq ≤ e.lastSeq
  distinct : ∀ v ∈ e.versions, ∀ w ∈ e.versions, v.seq = w.seq → v = w
  plain : ∀ v ∈ e.versions, v.vlog = false
  ids : (e.sstables.map sstableId).Nodup
  ids_lt : ∀ t ∈ e.sstables, t.sstableId < e.nextSstableId

/-- No table has so many keys that its filter's size wraps. -/
def BloomFits (e : WalEngine) : Action → Prop
  | .flush => SizeFits (distinctKeys e.mem.flushEntries).length
  | .compact => ∀ bucket, e.chosenBucket = some bucket →
    SizeFits (distinctKeys (e.mergedEntries bucket)).length
  | _ => True

instance (e : WalEngine) : (action : Action) → Decidable (e.BloomFits action)
  | .flush => inferInstanceAs (Decidable (SizeFits _))
  | .compact =>
    match h : e.chosenBucket with
    | none => isTrue fun _ hbucket ↦ absurd (h.symm.trans hbucket) nofun
    | some bucket =>
      decidable_of_iff (SizeFits
          (distinctKeys (e.mergedEntries bucket)).length)
        ⟨fun hfits _ hb ↦ Option.some.inj (h.symm.trans hb) ▸ hfits, fun hall ↦ hall bucket h⟩
  | .write _ _ _ | .sync | .watermark _ => isTrue trivial

variable {e : WalEngine}

namespace Sound

variable {e : WalEngine}

lemma valueLogActive_eq (h : e.Sound) : e.valueLogActive = false := by
  rw [valueLogActive, h.inline]
  simp

lemma consistent (h : e.Sound) : Consistent e.versions :=
  fun v hv w hw _ hseq ↦ h.distinct v hv w hw hseq

lemma get_eq (h : e.Sound) (key : Key) (at_ : Seq) :
    e.get key at_ =
      (e.newestAt key at_).bind fun v ↦ if v.tombstone then none else some v.value :=
  h.toReadable.get_eq_bind h.plain key at_

lemma start {c : Config} (hinline : c.valueThreshold = 0) (io : Script) :
    (c.engine io).Sound where
  mem := List.Pairwise.nil
  tables := nofun
  lsm := rfl
  inline := hinline
  seq_le := nofun
  distinct := nofun
  plain := nofun
  ids := nodup_nil
  ids_lt := nofun

lemma mem_versions_insert {record v : Entry} {lastSeq : Seq} {d : Disk} {io : Script} :
    v ∈ versions { e with
                   lastSeq := lastSeq, io := io, disk := d, walStarted := true,
                   mem := e.mem.insert record } ↔ v = record ∨ v ∈ e.versions := by
  rw [versions, versions, mem_append, mem_append]
  change v ∈ place record e.mem.entries ∨ _ ↔ _
  rw [mem_place]
  exact or_assoc

lemma write (h : e.Sound) (key : Key) (value : Value) (tombstone : Bool) :
    (e.write key value tombstone).Sound := by
  obtain ⟨landed, io, d, -, heq, -⟩ := e.write_spec_of_off h.valueLogActive_eq key value tombstone
  set record : Entry :=
    { seq := e.lastSeq + 1, key := key, value := value, tombstone := tombstone } with hrecord
  have hnew : ∀ v ∈ e.versions, v.seq < record.seq := fun v hv ↦ Nat.lt_succ_of_le (h.seq_le v hv)
  have hmem := @mem_versions_insert e record
  rw [heq]
  exact
    { mem := Memtable.Ascending.place h.mem fun v hv _ ↦
        (hnew v (mem_append_left _ hv)).le
      tables := h.tables
      lsm := h.lsm
      inline := h.inline
      seq_le := by
        intro v hv
        rcases hmem.mp hv with rfl | hold
        · exact le_rfl
        · exact (hnew v hold).le
      distinct := by
        intro v hv w hw hseq
        rcases hmem.mp hv with rfl | hv
        · rcases hmem.mp hw with rfl | hw
          · rfl
          · exact absurd hseq (hnew w hw).ne'
        · rcases hmem.mp hw with rfl | hw
          · exact absurd hseq (hnew v hv).ne
          · exact h.distinct v hv w hw hseq
      plain := by
        intro v hv
        rcases hmem.mp hv with rfl | hold
        · rfl
        · exact h.plain v hold
      ids := h.ids
      ids_lt := h.ids_lt }

lemma of_subset (h : e.Sound) {after : WalEngine} (hread : after.Readable)
    (hlsm : after.lsm = e.lsm) (hthreshold : after.valueThreshold = e.valueThreshold)
    (hlast : after.lastSeq = e.lastSeq) (hsub : ∀ v ∈ after.versions, v ∈ e.versions)
    (hids : (after.sstables.map sstableId).Nodup)
    (hlt : ∀ t ∈ after.sstables, t.sstableId < after.nextSstableId) : after.Sound where
  mem := hread.mem
  tables := hread.tables
  lsm := hlsm.trans h.lsm
  inline := hthreshold.trans h.inline
  seq_le v hv := hlast ▸ h.seq_le v (hsub v hv)
  distinct v hv w hw := h.distinct v (hsub v hv) w (hsub w hw)
  plain v hv := h.plain v (hsub v hv)
  ids := hids
  ids_lt := hlt

lemma ids_concat {tables : List SSTableReader} {t : SSTableReader} {next : ℕ}
    (hids : (tables.map sstableId).Nodup)
    (hlt : ∀ t ∈ tables, t.sstableId < next) (ht : t.sstableId = next) :
    ((tables ++ [t]).map sstableId).Nodup ∧
      ∀ u ∈ tables ++ [t], u.sstableId < next + 1 := by
  constructor
  · rw [map_append, map_singleton]
    refine List.Nodup.append hids (nodup_singleton _) fun id hid hnew ↦ ?_
    obtain ⟨u, hu, rfl⟩ := mem_map.mp hid
    exact (hlt u hu).ne ((mem_singleton.mp hnew).trans ht)
  · exact forall_mem_append.mpr ⟨fun u hu ↦ Nat.lt_succ_of_lt (hlt u hu),
      forall_mem_singleton.mpr (ht ▸ Nat.lt_succ_self _)⟩

end Sound

lemma nextTable_id (e : WalEngine) (entries : List SstEntry) :
    (e.nextTable entries).sstableId = e.nextSstableId := rfl

lemma collectEntries_nextTable (e : WalEngine) (entries : List SstEntry) :
    (e.nextTable entries).collectEntries = entries := collectEntries_adoptBuilt entries _

lemma mem_eraseFlushable_or {m : Memtable} {v : Entry} :
    (v ∈ m.eraseFlushable.entries ∨ v ∈ m.flushEntries) ↔ v ∈ m.entries := by
  rw [eraseFlushable_entries, flushEntries, mem_filter, mem_filter]
  cases m.isResident v.key <;> simp

lemma Flushed.mem_versions {e after : WalEngine} (h : Flushed e after) {v : Entry} :
    v ∈ after.versions ↔ v ∈ e.versions := by
  cases h with
  | stopped => exact Iff.rfl
  | failed => exact Iff.rfl
  | done =>
    simp only [versions, mem_append, flatMap_append, flatMap_singleton, collectEntries_nextTable]
    rw [← @mem_eraseFlushable_or e.mem v]
    tauto

lemma Sound.flushed {e after : WalEngine} (h : e.Sound) (hflush : Flushed e after)
    (hfits : e.BloomFits .flush) : after.Sound := by
  have hsub : ∀ v ∈ after.versions, v ∈ e.versions := fun v ↦ hflush.mem_versions.mp
  cases hflush with
  | stopped io factory next hnext =>
    exact h.of_subset ⟨h.mem, h.tables⟩ rfl rfl rfl hsub h.ids
      fun t ht ↦ (h.ids_lt t ht).trans_le hnext
  | failed =>
    exact h.of_subset ⟨h.mem, h.tables⟩ rfl rfl rfl hsub h.ids
      fun t ht ↦ Nat.lt_succ_of_lt (h.ids_lt t ht)
  | done =>
    obtain ⟨hids, hlt⟩ := Sound.ids_concat h.ids h.ids_lt (e.nextTable_id e.mem.flushEntries)
    have hnew := wellFormed_adoptBuilt (h.mem.filter _) hfits e.nextSstableId
    refine h.of_subset ⟨?_, forall_mem_append.mpr ⟨h.tables, forall_mem_singleton.mpr hnew⟩⟩
      rfl rfl rfl hsub hids hlt
    change Ascending e.mem.eraseFlushable.entries
    rw [eraseFlushable_entries]
    exact h.mem.filter _

/-! ### Compactions -/

structure SameMemory (e after : WalEngine) : Prop where
  lsm : after.lsm = e.lsm
  valueThreshold : after.valueThreshold = e.valueThreshold
  lastSeq : after.lastSeq = e.lastSeq
  readWatermark : after.readWatermark = e.readWatermark
  mem : after.mem = e.mem
  next_le : e.nextSstableId ≤ after.nextSstableId

def mergeOutput (e : WalEngine) (bucket : ℕ) : List SSTableReader :=
  (e.mergedTable (e.mergedEntries bucket)).toList

def compactionRest (e : WalEngine) (bucket : ℕ) : List SSTableReader :=
  e.sstables.filter fun t ↦ !(!isTopicSegment t ∧ bucketOf t = bucket : Bool)

lemma filter_not_inputIds (hids : (e.sstables.map sstableId).Nodup) (bucket : ℕ) :
    (e.sstables.filter fun t ↦
      !((e.compactionInputs bucket).map sstableId).contains t.sstableId) =
      e.compactionRest bucket := by
  refine filter_congr fun t ht ↦ congrArg Bool.not ?_
  rw [Bool.eq_iff_iff, contains_iff_mem, mem_map]
  constructor
  · rintro ⟨u, hu, hid⟩
    obtain ⟨hmem, hclass⟩ := mem_filter.mp hu
    rwa [← inj_on_of_nodup_map hids hmem ht hid]
  · exact fun hclass ↦ ⟨t, mem_filter.mpr ⟨ht, hclass⟩, rfl⟩

lemma Sound.doCompact_cases (h : e.Sound) : SameMemory e e.doCompact ∧
      (e.doCompact.sstables = e.sstables ∧ (e.io = Script.honest → ∀ bucket,
          e.chosenBucket = some bucket → (e.compactionInputs bucket).length < 2) ∨
        ∃ bucket, e.chosenBucket = some bucket ∧ 2 ≤ (e.compactionInputs bucket).length ∧
          (e.mergedEntries bucket ≠ [] → e.nextSstableId < e.doCompact.nextSstableId) ∧
          e.doCompact.sstables = e.compactionRest bucket ++ e.mergeOutput bucket) := by
  rcases e.doCompact_cases with ⟨hidle, hfew⟩ | ⟨bucket, hbucket, hcrowded, heq⟩
  · rw [hidle]
    exact ⟨⟨rfl, rfl, rfl, rfl, rfl, le_rfl⟩, .inl ⟨rfl, fun _ ↦ hfew h.lsm⟩⟩
  have hrewritten : e.rewritten bucket = (e.mergedEntries bucket, [], e) := by
    rw [rewritten, h.valueLogActive_eq]
    rfl
  rw [hrewritten] at heq
  obtain ⟨io, factory, next, logged, after, truncSeq, hnext, -, hlogs, hcases⟩ :=
    e.replaceTables_spec (fun _ ↦ trivial) (e.mergedEntries bucket) []
      ((e.compactionInputs bucket).map sstableId)
      ((e.compactionInputs bucket).foldl (fun most t ↦ max most t.maxSeq) kNoSeq)
  obtain ⟨_, _, _, _, hafter⟩ := hlogs.frame
  rcases hcases with ⟨hno, hsame⟩ | ⟨hlt, hnew⟩
  · rw [heq, hsame, hafter]
    exact ⟨⟨rfl, rfl, rfl, rfl, rfl, hnext⟩, .inl ⟨rfl, fun hio ↦ absurd hio hno⟩⟩
  · rw [heq, hnew, hafter]
    refine ⟨⟨rfl, rfl, rfl, rfl, rfl, hnext⟩, .inr ⟨bucket, hbucket, hcrowded, hlt, ?_⟩⟩
    rw [← filter_not_inputIds h.ids]
    rfl

def outsideEntries (e : WalEngine) (bucket : ℕ) : List Entry :=
  e.mem.entries ++ (e.compactionRest bucket).flatMap collectEntries

def inputEntries (e : WalEngine) (bucket : ℕ) : List Entry :=
  ((e.compactionInputs bucket).map collectEntries).flatten

lemma mem_inputEntries_or (e : WalEngine) (bucket : ℕ) {v : Entry} :
    (v ∈ e.inputEntries bucket ∨ v ∈ e.outsideEntries bucket) ↔ v ∈ e.versions := by
  rw [inputEntries, outsideEntries, versions, ← flatMap_def, mem_append, mem_append,
    mem_flatMap, mem_flatMap, mem_flatMap]
  simp only [compactionInputs, compactionRest, mem_filter]
  constructor
  · rintro (⟨t, ⟨ht, -⟩, hv⟩ | hv | ⟨t, ⟨ht, -⟩, hv⟩)
    · exact .inr ⟨t, ht, hv⟩
    · exact .inl hv
    · exact .inr ⟨t, ht, hv⟩
  · rintro (hv | ⟨t, ht, hv⟩)
    · exact .inr (.inl hv)
    · by_cases hclass : (!isTopicSegment t ∧ bucketOf t = bucket : Bool)
      · exact .inl ⟨t, ⟨ht, hclass⟩, hv⟩
      · rw [Bool.not_eq_true] at hclass
        exact .inr (.inr ⟨t, ⟨ht, by rw [hclass]; rfl⟩, hv⟩)

lemma flatMap_mergeOutput (e : WalEngine) (bucket : ℕ) :
    (e.mergeOutput bucket).flatMap collectEntries = e.mergedEntries bucket := by
  rw [mergeOutput, mergedTable]
  split_ifs with hempty
  · rw [hempty]
    rfl
  · rw [Option.toList_some, flatMap_singleton, collectEntries_nextTable]

lemma versions_of_replaced {e after : WalEngine} {bucket : ℕ} (hmem : after.mem = e.mem)
    (htables : after.sstables = e.compactionRest bucket ++ e.mergeOutput bucket) :
    after.versions = e.outsideEntries bucket ++ e.mergedEntries bucket := by
  rw [versions, htables, hmem, flatMap_append, flatMap_mergeOutput, outsideEntries, append_assoc]

lemma mem_inputEntries_of_merged {bucket : ℕ} {v : Entry}
    (hv : v ∈ e.mergedEntries bucket) : v ∈ e.inputEntries bucket := mem_of_mem_compactMerge hv

lemma Sound.doCompact (h : e.Sound) (hfits : e.BloomFits .compact) :
    e.doCompact.Sound := by
  obtain ⟨hmemory, ⟨htables, -⟩ | ⟨bucket, hbucket, -, hnext, htables⟩⟩ := h.doCompact_cases
  · have hversions : e.doCompact.versions = e.versions := by
      rw [versions, versions, hmemory.mem, htables]
    refine h.of_subset ⟨by rw [hmemory.mem]; exact h.mem, by rw [htables]; exact h.tables⟩
      hmemory.lsm hmemory.valueThreshold hmemory.lastSeq (fun v hv ↦ hversions ▸ hv)
      (by rw [htables]; exact h.ids) ?_
    rw [htables]
    exact fun t ht ↦ (h.ids_lt t ht).trans_le hmemory.next_le
  · have hrest : ∀ t ∈ e.compactionRest bucket, t ∈ e.sstables :=
      fun t ht ↦ (mem_filter.mp ht).1
    have hversions := versions_of_replaced hmemory.mem htables
    have hsub : ∀ v ∈ e.doCompact.versions, v ∈ e.versions := by
      intro v hv
      rw [hversions, mem_append] at hv
      refine (e.mem_inputEntries_or bucket).mp ?_
      exact hv.symm.imp mem_inputEntries_of_merged id
    have hoids : ((e.compactionRest bucket).map sstableId).Nodup :=
      h.ids.sublist (filter_sublist.map _)
    have hread : e.doCompact.Readable := by
      refine ⟨by rw [hmemory.mem]; exact h.mem, fun t ht ↦ ?_⟩
      rw [htables, mergeOutput, mergedTable] at ht
      rcases mem_append.mp ht with hold | hnew
      · exact h.tables t (hrest t hold)
      split_ifs at hnew
      · cases hnew
      · rw [mem_singleton.mp hnew]
        exact wellFormed_adoptBuilt (ascending_compactMerge _ _)
          (hfits bucket hbucket) _
    have hfresh := Sound.ids_concat hoids (fun t ht ↦ h.ids_lt t (hrest t ht))
      (e.nextTable_id (e.mergedEntries bucket))
    refine h.of_subset hread hmemory.lsm hmemory.valueThreshold hmemory.lastSeq hsub ?_ ?_
    all_goals
      rw [htables, mergeOutput, mergedTable]
      split_ifs with hempty
    · rw [Option.toList_none, append_nil]
      exact hoids
    · exact hfresh.1
    · rw [Option.toList_none, append_nil]
      exact fun t ht ↦ (h.ids_lt t (hrest t ht)).trans_le hmemory.next_le
    · exact fun t ht ↦ (hfresh.2 t ht).trans_le (hnext hempty)

lemma Sound.sync (h : e.Sound) : e.sync.2.Sound := by
  obtain ⟨_, _, _, _, hsync, -⟩ := e.sync_spec
  rw [hsync]
  exact h.of_subset ⟨h.mem, h.tables⟩ rfl rfl rfl (fun v hv ↦ hv) h.ids h.ids_lt

/-- Every action keeps it. -/
lemma Sound.exec (h : e.Sound) {action : Action} (hfits : e.BloomFits action) :
    (e.exec action).Sound := by
  cases action with
  | write key value tombstone => exact h.write key value tombstone
  | flush => exact h.flushed (e.doFlush_spec h.lsm) hfits
  | compact => exact h.doCompact hfits
  | sync => exact h.sync
  | watermark seq =>
    exact h.of_subset ⟨h.mem, h.tables⟩ rfl rfl rfl (fun v hv ↦ hv) h.ids h.ids_lt

end Lockstep.Storage.WalEngine
