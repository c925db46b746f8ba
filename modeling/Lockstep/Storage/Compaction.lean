import Lockstep.Storage.Sound

/-!
# Compaction and the values that readers see

A compaction merges one size class of tables and drops versions as if the merge saw every version of
a key.
-/

namespace Lockstep.Storage.WalEngine

open Library Newest GuardedRun SSTableReader Script Config Option

def ReadsKept (e after : WalEngine) : Prop :=
  ∀ at_, e.readWatermark ≤ at_ → (∀ key, after.get key at_ = e.get key at_) ∧
    ∀ range, after.scan range at_ = e.scan range at_

/-- Of every key that the merge drops, the newest version outside the merged tables that a reader at
the watermark sees is a tombstone or newer than what is dropped. -/
def KeepsDeletes (e : WalEngine) : Prop :=
  ∀ bucket, e.chosenBucket = some bucket → 2 ≤ (e.compactionInputs bucket).length →
    ∀ key, Vanishes ((e.compactionInputs bucket).map collectEntries)
        e.gcWatermark key →
      ∀ v, seenAt (e.outsideEntries bucket) key e.readWatermark = some v →
        v.tombstone = true ∨ ∀ w ∈ e.inputEntries bucket, w.key = key → w.seq < v.seq

lemma gcWatermark_le (e : WalEngine) : e.gcWatermark ≤ e.readWatermark := by
  rw [gcWatermark]
  split_ifs with hretain
  · exact (Nat.sub_le _ 1).trans hretain.2
  · exact le_rfl

variable {v : Entry}

lemma shown_of_tombstone (h : v.tombstone = true) : shown (some v) = none := by
  rw [shown, bind_some, if_pos h]

lemma tombstone_of_shown (h : shown (some v) = none) : v.tombstone = true := by
  rw [shown, bind_some] at h
  split_ifs at h with htomb
  exact htomb

lemma shown_later_iff {last : Entry} (htomb : last.tombstone = true) {hit : Option Entry} :
    shown hit = shown (later Entry.seq hit (some last)) ↔
      ∀ v, hit = some v → v.tombstone = true ∨ last.seq < v.seq := by
  cases hit with
  | none =>
    rw [later_none_left, shown_of_tombstone htomb]
    exact ⟨fun _ ↦ nofun, fun _ ↦ rfl⟩
  | some v =>
    rw [later]
    split_ifs with hle
    · rw [shown_of_tombstone htomb]
      constructor
      · rintro hnone w ⟨rfl⟩
        exact .inl (tombstone_of_shown hnone)
      · intro hcond
        exact shown_of_tombstone ((hcond v rfl).resolve_right (not_lt.mpr hle))
    · refine ⟨?_, fun _ ↦ rfl⟩
      rintro - w ⟨rfl⟩
      exact .inr (not_le.mp hle)

variable {key : Key}

lemma seenAt_of_le {entries : List Entry} (hcons : Consistent entries)
    {at_ after : Seq} (hle : at_ ≤ after) (hseen : seenAt entries key after = some v)
    (hv : v.seq ≤ at_) : seenAt entries key at_ = some v := by
  obtain ⟨hmem, hvisible, hmax⟩ := hcons.newest_eq_some_iff.mp hseen
  exact hcons.newest_eq_some_iff.mpr
    ⟨hmem, ⟨hvisible.1, hv⟩, fun w hw hwv ↦ hmax w hw ⟨hwv.1, hwv.2.trans hle⟩⟩

section Replaced

variable {e after : WalEngine} {bucket : ℕ}

lemma Sound.consistent_inputs (h : e.Sound) (bucket : ℕ) :
    Consistent (e.inputEntries bucket) :=
  h.consistent.mono fun _ hv ↦ (e.mem_inputEntries_or bucket).mp (Or.inl hv)

lemma Sound.consistent_outside (h : e.Sound) (bucket : ℕ) :
    Consistent (e.outsideEntries bucket) :=
  h.consistent.mono fun _ hv ↦ (e.mem_inputEntries_or bucket).mp (Or.inr hv)

lemma Sound.newestAt_eq_later (h : e.Sound) (bucket : ℕ) (key : Key) (at_ : Seq) :
    e.newestAt key at_ = later Entry.seq (seenAt (e.outsideEntries bucket) key at_)
      (seenAt (e.inputEntries bucket) key at_) := by
  rw [seenAt, seenAt, ← newest_append, ← List.filter_append]
  refine newest_visibleAt_congr h.consistent (fun v ↦ ?_) key at_
  rw [← e.mem_inputEntries_or bucket, List.mem_append, or_comm]

lemma newestAt_of_replaced (hmem : after.mem = e.mem)
    (htables : after.sstables = e.compactionRest bucket ++ e.mergeOutput bucket) (key : Key)
    (at_ : Seq) :
    after.newestAt key at_ = later Entry.seq (seenAt (e.outsideEntries bucket) key at_)
      (seenAt (e.mergedEntries bucket) key at_) := by
  rw [newestAt, versions_of_replaced hmem htables, List.filter_append, newest_append]
  rfl

lemma Sound.newestAt_replaced_of_kept (h : e.Sound) (hmem : after.mem = e.mem)
    (htables : after.sstables = e.compactionRest bucket ++ e.mergeOutput bucket)
    (hkept : ¬ Vanishes ((e.compactionInputs bucket).map collectEntries)
      e.gcWatermark key) {at_ : Seq} (hat : e.readWatermark ≤ at_) :
    after.newestAt key at_ = e.newestAt key at_ := by
  rw [newestAt_of_replaced hmem htables, h.newestAt_eq_later bucket]
  have hmerge := newest_compactMerge (h.consistent_inputs bucket) (e.gcWatermark_le.trans hat) hkept
  exact congrArg _ hmerge

lemma newestAt_replaced_of_vanishes (hmem : after.mem = e.mem)
    (htables : after.sstables = e.compactionRest bucket ++ e.mergeOutput bucket)
    (hgone : Vanishes ((e.compactionInputs bucket).map collectEntries)
      e.gcWatermark key) (at_ : Seq) :
    after.newestAt key at_ = seenAt (e.outsideEntries bucket) key at_ := by
  rw [newestAt_of_replaced hmem htables]
  have hnone : seenAt (e.mergedEntries bucket) key at_ = none :=
    congrArg _ (filter_compactMerge_of_vanishes hgone at_)
  rw [hnone, later_none_right]

lemma Sound.shown_vanishing_iff (h : e.Sound)
    (hgone : Vanishes ((e.compactionInputs bucket).map collectEntries)
      e.gcWatermark key) :
    (∀ at_, e.readWatermark ≤ at_ →
        shown (seenAt (e.outsideEntries bucket) key at_) = shown (e.newestAt key at_)) ↔
      ∀ v, seenAt (e.outsideEntries bucket) key e.readWatermark = some v →
        v.tombstone = true ∨ ∀ w ∈ e.inputEntries bucket, w.key = key → w.seq < v.seq := by
  obtain ⟨last, hlast, hkey, htomb, hle, hmax, hnewest⟩ :=
    exists_tombstone_of_vanishes (h.consistent_inputs bucket) hgone
  have hwatermark : last.seq ≤ e.readWatermark := hle.trans e.gcWatermark_le
  have hread : ∀ at_, e.readWatermark ≤ at_ → e.newestAt key at_ =
      later Entry.seq (seenAt (e.outsideEntries bucket) key at_) (some last) := by
    intro at_ hat
    rw [h.newestAt_eq_later bucket, ← hnewest at_ (e.gcWatermark_le.trans hat)]
    rfl
  constructor
  · intro hshown v hv
    have hcond := hshown e.readWatermark le_rfl
    rw [hread _ le_rfl, shown_later_iff htomb] at hcond
    refine (hcond v hv).imp_right fun hlt w hw hwkey ↦ ?_
    exact (hmax w hw hwkey).trans_lt hlt
  · intro hcond at_ hat
    rw [hread at_ hat, shown_later_iff htomb]
    intro v hv
    -- A version not newer than the tombstone is already seen at the watermark.
    by_cases hold : v.seq ≤ last.seq
    · have hseen := seenAt_of_le (h.consistent_outside bucket) hat hv (hold.trans hwatermark)
      exact (hcond v hseen).imp_right fun hall ↦ hall last hlast hkey
    · exact .inr (not_le.mp hold)

end Replaced

lemma Sound.readsKept_replaced_iff {e : WalEngine} (h : e.Sound) (hafter : e.doCompact.Sound)
    (hmemory : SameMemory e e.doCompact) {bucket : ℕ} (hbucket : e.chosenBucket = some bucket)
    (hcrowded : 2 ≤ (e.compactionInputs bucket).length)
    (htables : e.doCompact.sstables = e.compactionRest bucket ++ e.mergeOutput bucket) :
    ReadsKept e e.doCompact ↔ e.KeepsDeletes := by
  constructor
  · intro hkept other hother _ key hgone
    obtain rfl : bucket = other := some.inj (hbucket.symm.trans hother)
    refine (h.shown_vanishing_iff hgone).mp fun at_ hat ↦ ?_
    have hget := (hkept at_ hat).1 key
    rw [hafter.get_eq, h.get_eq, newestAt_replaced_of_vanishes hmemory.mem htables hgone] at hget
    exact hget
  · intro hdeletes at_ hat
    have hget : ∀ key, e.doCompact.get key at_ = e.get key at_ := by
      intro key
      rw [hafter.get_eq, h.get_eq]
      by_cases hgone : Vanishes ((e.compactionInputs bucket).map collectEntries)
          e.gcWatermark key
      · rw [newestAt_replaced_of_vanishes hmemory.mem htables hgone]
        exact (h.shown_vanishing_iff hgone).mpr (hdeletes bucket hbucket hcrowded key hgone) at_ hat
      · rw [h.newestAt_replaced_of_kept hmemory.mem htables hgone hat]
    exact ⟨hget, fun range ↦ h.toReadable.scan_eq hafter.toReadable hget range⟩

/-- In every state that actions reach, under any outcomes of the I/O: a compaction changes no read
at or above the watermark when deletes are kept, and only then unless some I/O fails. -/
theorem compaction_keeps_reads_iff {c : Config} (hinline : c.valueThreshold = 0) (io : Script)
    {actions : List Action}
    (hfits : Meets exec BloomFits (c.engine io) (actions ++ [.compact])) :
    ((run exec (c.engine io) actions).KeepsDeletes →
        ReadsKept (run exec (c.engine io) actions)
          (run exec (c.engine io) actions).doCompact) ∧
      ((run exec (c.engine io) actions).io = honest →
        ReadsKept (run exec (c.engine io) actions)
          (run exec (c.engine io) actions).doCompact →
        (run exec (c.engine io) actions).KeepsDeletes) := by
  obtain ⟨hrun, hcompact, -⟩ := hfits.of_append
  have hsound : (run exec (c.engine io) actions).Sound :=
    hrun.induction Sound (fun e action h hfits ↦ h.exec hfits) (Sound.start hinline io)
  set e := run exec (c.engine io) actions
  have hafter : e.doCompact.Sound := hsound.doCompact hcompact
  obtain ⟨hmemory, ⟨htables, hidle⟩ | ⟨bucket, hbucket, hcrowded, -, htables⟩⟩ :=
    hsound.doCompact_cases
  · refine ⟨fun _ at_ _ ↦ ?_, fun hhonest _ bucket hbucket hcrowded ↦
      absurd hcrowded (not_le.mpr (hidle hhonest bucket hbucket))⟩
    have hget : ∀ key, e.doCompact.get key at_ = e.get key at_ := by
      intro key
      rw [hafter.get_eq, hsound.get_eq, newestAt, newestAt, versions, versions, hmemory.mem,
        htables]
    exact ⟨hget, fun range ↦ hsound.toReadable.scan_eq hafter.toReadable hget range⟩
  · have hiff := hsound.readsKept_replaced_iff hafter hmemory hbucket hcrowded htables
    exact ⟨hiff.mpr, fun _ ↦ hiff.mp⟩

def deletedInClass : List Action :=
  [.write [97] [1] false, .flush, .write [97] [] true, .flush, .watermark 2]

theorem compaction_keeps_reads_deletedInClass :
    ReadsKept (run exec (engine { compactionTrigger := 2 } honest)
        deletedInClass)
      (run exec (engine { compactionTrigger := 2 } honest)
        deletedInClass).doCompact := by
  have hfits : Meets exec BloomFits
      (engine { compactionTrigger := 2 } honest)
      (deletedInClass ++ [.compact]) := by decide +kernel
  refine (compaction_keeps_reads_iff rfl honest hfits).1 ?_
  intro bucket hbucket _ key _ v hv
  have hsmall : (run exec (engine { compactionTrigger := 2 } honest)
      deletedInClass).chosenBucket = some 0 := by decide +kernel
  have hnone : (run exec (engine { compactionTrigger := 2 } honest)
      deletedInClass).outsideEntries 0 = [] := by decide +kernel
  obtain rfl : 0 = bucket := some.inj (hsmall.symm.trans hbucket)
  rw [hnone] at hv
  cases hv

def deletedAcrossClasses : List Action :=
  [.write [97] [1] false, .write [98] [2] false, .flush, .write [97] [] true, .flush,
    .write [99] [3] false, .flush, .watermark 4]

/-- Compacting the two small tables drops the tombstone, and the deleted value comes back. -/
theorem compaction_resurrects :
    let e := run exec (engine { compactionTrigger := 2 } honest)
      deletedAcrossClasses
    e.readWatermark = 4 ∧ e.get [97] 4 = none ∧ e.doCompact.get [97] 4 = some [1] := by
  decide +kernel

end Lockstep.Storage.WalEngine
