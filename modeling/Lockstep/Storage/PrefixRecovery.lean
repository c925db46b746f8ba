import Lockstep.Storage.Logged

/-!
# A crash leaves a prefix of the history

One life of an engine: writes, syncs and flushes without I/O errors, and a crash inside of an action
or behind it.
-/

namespace Lockstep.Storage.WalEngine

open Library GuardedRun Newest Script Memtable SSTableBuilder List Option

def ActionFits (e : WalEngine) : Action → Prop
  | .write key value tombstone => e.WriteFits key value tombstone
  | .flush => TableFits e.mem.flushEntries
  | _ => True

instance (e : WalEngine) : (action : Action) → Decidable (e.ActionFits action)
  | .write key value tombstone => inferInstanceAs (Decidable (e.WriteFits key value tombstone))
  | .flush => inferInstanceAs (Decidable (TableFits _))
  | .compact | .sync | .watermark _ => isTrue trivial

def committed (history : List Entry) : Action → List Entry
  | .write key value tombstone => history ++
    [{ seq := history.length + 1, key := key, value := value, tombstone := tombstone }]
  | _ => history

def historyOf (actions : List Action) : List Entry := actions.foldl committed []

def crashedIn (e : WalEngine) (count : ℕ) (action : Action) : WalEngine :=
  exec { e with io := cutAfter count } action

/-- The log is synced up to every resident version that is older than the newest of the first
table. -/
def ResidentsSynced (e : WalEngine) : Prop :=
  ∀ t ∈ e.sstables.head?, ∀ v ∈ e.mem.entries, e.mem.isResident v.key = true → v.seq ≤ t.maxSeq →
    v.seq ≤ e.crash.walRecords.length

instance (e : WalEngine) : Decidable e.ResidentsSynced :=
  inferInstanceAs (Decidable (∀ t ∈ e.sstables.head?, ∀ v ∈ e.mem.entries, _ → _ → _))

/-! ### One life -/

structure StandsFor (e : WalEngine) (r w : Entry) : Prop where
  seq : r.seq = w.seq
  key : r.key = w.key
  tombstone : r.tombstone = w.tombstone
  keeps : e.Keeps r w.value

lemma StandsFor.of_grows {e after : WalEngine} {r w : Entry} (h : e.StandsFor r w)
    (hlsm : after.lsm = e.lsm) (hgrows : e.FactoryGrows after) : after.StandsFor r w where
  seq := h.seq
  key := h.key
  tombstone := h.tombstone
  keeps := h.keeps.of_isPrefix hlsm fun id ↦ (hgrows id).image

structure OneLife (e : WalEngine) (synced records : List WalRecord)
    (first : Option (List SstEntry)) (history : List Entry) : Prop extends
    e.Logged synced records first where
  io : e.io = honest
  count : records.length = e.lastSeq
  history : Forall₂ e.StandsFor records history
  residents : ∀ r ∈ records, e.mem.isResident r.key = true → r ∈ e.mem.entries
  unflushed : first = none → e.sstables = [] ∧ ∀ r ∈ records, r ∈ e.mem.entries
  flushed : ∀ entries, first = some entries →
    (∃ rest, e.sstables = SSTableReader.adoptBuilt (build entries) 0 :: rest) ∧
      ∃ upTo ≤ records.length, ∀ r, r ∈ entries ↔
        r ∈ records ∧ r.seq ≤ upTo ∧ e.mem.isResident r.key = false

lemma OneLife.start (c : Config) : (c.engine honest).OneLife [] [] none [] :=
  { Logged.start c honest with
    io := rfl
    count := rfl
    history := List.Forall₂.nil
    residents := nofun
    unflushed := fun _ ↦ ⟨rfl, nofun⟩
    flushed := nofun }

variable {e after : WalEngine} {synced records : List WalRecord} {first : Option (List SstEntry)}
  {history : List Entry}

section

variable (h : e.OneLife synced records first history)

include h

lemma OneLife.settled (hsettled : Settled e after)
    {synced' : List WalRecord} (hafter : after.Logged synced' records first) :
    after.OneLife synced' records first history :=
  { hafter with
    io := hsettled.io
    count := h.count.trans hsettled.lastSeq.symm
    history := h.history.imp fun _ _ hr ↦
      hr.of_grows (hafter.lsm.trans h.lsm.symm) hsettled.grows
    residents := hsettled.mem ▸ h.residents
    unflushed := by
      rw [hsettled.sstables, hsettled.mem]
      exact h.unflushed
    flushed := by
      rw [hsettled.sstables, hsettled.mem]
      exact h.flushed }

lemma OneLife.write {key : Key} {value : Value}
    {tombstone : Bool} (hfits : e.WriteFits key value tombstone) :
    ∃ record, (e.write key value tombstone).OneLife synced (records ++ [record]) first
      (committed history (.write key value tombstone)) := by
  obtain ⟨record, rfl, rfl, hwrote, hafter⟩ := h.toLogged.write h.io h.count hfits
  have hlsm := hafter.lsm.trans h.lsm.symm
  have hmem : ∀ r, r ∈ (e.write record.key value record.tombstone).mem.entries ↔
      r = record ∨ r ∈ e.mem.entries := by
    intro r
    rw [hwrote.mem]
    exact mem_place
  have hresident : ∀ k, (e.write record.key value record.tombstone).mem.isResident k =
      e.mem.isResident k := by
    intro k
    rw [hwrote.mem]
    rfl
  refine ⟨record, { hafter with
    io := hwrote.io
    count := ?_
    history := ?_
    residents := ?_
    unflushed := ?_
    flushed := ?_ }⟩
  · rw [hwrote.lastSeq, length_append, h.count]
    rfl
  · refine rel_append (h.history.imp fun _ _ hr ↦ hr.of_grows hlsm hwrote.grows)
      (List.Forall₂.cons ⟨?_, rfl, rfl, hwrote.keeps⟩ List.Forall₂.nil)
    rw [hwrote.seq, ← h.count, h.history.length_eq]
  · intro r hr hkey
    rw [hresident] at hkey
    exact (hmem r).mpr ((mem_append.mp hr).symm.imp mem_singleton.mp (h.residents r · hkey))
  · intro hnone
    obtain ⟨hempty, hall⟩ := h.unflushed hnone
    exact ⟨hwrote.sstables.trans hempty, fun r hr ↦
      (hmem r).mpr ((mem_append.mp hr).symm.imp mem_singleton.mp (hall r))⟩
  · intro entries hsome
    obtain ⟨hfirst, upTo, hle, hmembers⟩ := h.flushed entries hsome
    refine ⟨hwrote.sstables ▸ hfirst, upTo, hle.trans (by simp), fun r ↦ ?_⟩
    -- The new record is past the front that the table holds.
    rw [hmembers, hresident, mem_append, mem_singleton]
    refine ⟨fun hr ↦ ⟨.inl hr.1, hr.2⟩, ?_⟩
    rintro ⟨hr | rfl, hseq, hkey⟩
    · exact ⟨hr, hseq, hkey⟩
    · rw [hwrote.seq, ← h.count] at hseq
      exact absurd (hseq.trans hle) (Nat.not_succ_le_self _)

lemma OneLife.flushed_flushFirst
    {entries : List SstEntry} (hsome : e.flushFirst first = some entries) :
    (∃ rest, e.sstables ++ [e.nextTable e.mem.flushEntries] =
      SSTableReader.adoptBuilt (build entries) 0 :: rest) ∧
      ∃ upTo ≤ records.length, ∀ r, r ∈ entries ↔
        r ∈ records ∧ r.seq ≤ upTo ∧ e.mem.isResident r.key = false := by
  obtain rfl := some.inj hsome
  cases first with
  | some entries =>
    obtain ⟨⟨rest, hrest⟩, hfront⟩ := h.flushed entries rfl
    exact ⟨⟨_, by rw [hrest]; rfl⟩, hfront⟩
  | none =>
    obtain ⟨hempty, hall⟩ := h.unflushed rfl
    refine ⟨⟨[], ?_⟩, records.length, le_rfl, fun r ↦ ?_⟩
    · rw [hempty, nextTable, (h.manifestEmpty rfl).next]
      rfl
    rw [getD_none, flushEntries, mem_filter, Bool.not_eq_true']
    constructor
    · rintro ⟨hr, hkey⟩
      have hlogged := h.memLogged r hr
      exact ⟨hlogged, h.numberedAll.seq_le hlogged, hkey⟩
    · rintro ⟨hr, -, hkey⟩
      exact ⟨hall r hr, hkey⟩

end

lemma Flushed.residents (h : Flushed e after) :
    (∀ key, after.mem.isResident key = e.mem.isResident key) ∧
      ∀ v ∈ e.mem.entries, e.mem.isResident v.key = true → v ∈ after.mem.entries := by
  cases h with
  | stopped => exact ⟨fun _ ↦ rfl, fun v hv _ ↦ hv⟩
  | failed => exact ⟨fun _ ↦ rfl, fun v hv _ ↦ hv⟩
  | done =>
    refine ⟨fun key ↦ isResident_eraseFlushable _ _, fun v hv hkey ↦ ?_⟩
    rw [eraseFlushable_entries]
    exact mem_filter.mpr ⟨hv, hkey⟩

section

variable (h : e.OneLife synced records first history)

include h

lemma OneLife.flush (hfits : TableFits e.mem.flushEntries) :
    ∃ first', e.doFlush.OneLife synced records first' history := by
  rcases h.toLogged.flush h.io hfits (e.doFlush_spec h.lsm) with
    ⟨-, hsettled, hafter⟩ | ⟨hne, hmoved, hafter⟩
  · exact ⟨first, h.settled hsettled hafter⟩
  obtain ⟨hresident, hresidents⟩ := (e.doFlush_spec h.lsm).residents
  refine ⟨_, { hafter with
    io := hmoved.io
    count := h.count.trans hmoved.lastSeq.symm
    history := h.history.imp fun _ _ hr ↦ hr.of_grows (hafter.lsm.trans h.lsm.symm) hmoved.grows
    residents := fun r hr hkey ↦ ?_
    unflushed := nofun
    flushed := fun entries hsome ↦ ?_ }⟩
  · rw [hresident] at hkey
    exact hresidents r (h.residents r hr hkey) hkey
  · rw [hmoved.sstables]
    simp only [hresident]
    exact h.flushed_flushFirst hsome

lemma OneLife.exec {action : Action} (hfits : e.ActionFits action) (haction : action ≠ .compact) :
    ∃ synced' records' first',
      (e.exec action).OneLife synced' records' first' (committed history action) ∧
      synced <+: synced' ∧ (action = .sync → history.length ≤ synced'.length) := by
  cases action with
  | write key value tombstone =>
    obtain ⟨record, hafter⟩ := h.write hfits
    exact ⟨synced, _, first, hafter, prefix_rfl, nofun⟩
  | flush =>
    obtain ⟨first', hafter⟩ := h.flush hfits
    exact ⟨synced, records, first', hafter, prefix_rfl, nofun⟩
  | compact => exact absurd rfl haction
  | sync =>
    obtain ⟨hsettled, hafter⟩ := h.toLogged.sync h.io
    exact ⟨records, records, first, h.settled hsettled hafter, h.synced_le,
      fun _ ↦ h.history.length_eq.ge⟩
  | watermark bound =>
    obtain ⟨hsettled, hafter⟩ := h.toLogged.watermark h.io bound
    exact ⟨synced, records, first, h.settled hsettled hafter, prefix_rfl, nofun⟩

lemma OneLife.run {actions : List Action}
    (hmeets : Meets WalEngine.exec ActionFits e actions) (hcompact : .compact ∉ actions) :
    ∃ synced' records' first',
      (run WalEngine.exec e actions).OneLife synced' records' first'
        (actions.foldl committed history) ∧
      synced <+: synced' ∧ ∀ before behind, actions = before ++ .sync :: behind →
        (before.foldl committed history).length ≤ synced'.length := by
  induction actions generalizing e synced records first history with
  | nil =>
    refine ⟨synced, records, first, h, prefix_rfl, fun before behind hsplit ↦ ?_⟩
    exact absurd hsplit.symm (by simp)
  | cons action actions ih =>
    rw [mem_cons, not_or] at hcompact
    obtain ⟨_, _, _, hstep, hle, hsync⟩ := h.exec hmeets.1 fun heq ↦ hcompact.1 heq.symm
    obtain ⟨synced', records', first', hrun, hle', hsyncs⟩ := ih hstep hmeets.2 hcompact.2
    refine ⟨synced', records', first', hrun, hle.trans hle', fun before behind hsplit ↦ ?_⟩
    cases before with
    | nil =>
      obtain ⟨rfl, -⟩ := cons.inj hsplit
      exact (hsync rfl).trans hle'.length_le
    | cons first before =>
      obtain ⟨rfl, hrest⟩ := cons.inj hsplit
      exact hsyncs before behind hrest

end

/-! ### The crash -/

/-- What a crash inside of an action finds: on the disks a front of the log and a first table, and
in memory the resident versions. -/
structure CrashFinds (e crashed : WalEngine) (synced records synced' : List WalRecord)
    (first' : Option (List SstEntry)) : Prop extends crashed.OnDisk synced' first' where
  lsm : crashed.lsm = true
  grows : e.FactoryGrows crashed
  synced_le : synced <+: synced'
  le_records : synced' <+: records
  isResident : ∀ key, crashed.mem.isResident key = e.mem.isResident key
  residents : ∀ r ∈ records, e.mem.isResident r.key = true → r ∈ crashed.mem.entries
  flushed : ∀ entries, first' = some entries →
    (∃ rest, crashed.sstables =
      SSTableReader.adoptBuilt (build entries) 0 :: rest) ∧
      ∃ upTo ≤ records.length, ∀ r, r ∈ entries ↔
        r ∈ records ∧ r.seq ≤ upTo ∧ e.mem.isResident r.key = false

lemma OneLife.crashFinds_of_frame (h : e.OneLife synced records first history)
    {synced' : List WalRecord} (hdisk : after.OnDisk synced' first) (hlsm : after.lsm = e.lsm)
    (hgrows : e.FactoryGrows after) (hmem : after.mem = e.mem)
    (hsstables : after.sstables = e.sstables) (hle : synced <+: synced')
    (hrecords : synced' <+: records) : CrashFinds e after synced records synced' first :=
  { hdisk with
    lsm := hlsm.trans h.lsm
    grows := hgrows
    synced_le := hle
    le_records := hrecords
    isResident := fun _ ↦ by rw [hmem]
    residents := hmem ▸ h.residents
    flushed := hsstables ▸ h.flushed }

lemma OneLife.crashFinds (h : e.OneLife synced records first history) {action : Action}
    (hfits : e.ActionFits action) (haction : action ≠ .compact) (count : ℕ) :
    ∃ synced' first', CrashFinds e (e.crashedIn count action) synced records synced' first' ∧
      (action = .sync → (sync { e with io := cutAfter count }).1 = true →
        history.length ≤ synced'.length) := by
  have hlogged := h.toLogged.withIo (cutAfter count)
  have hother : ∀ {other : Action} {P : Prop}, other ≠ .sync → other = .sync → P :=
    fun hne heq ↦ absurd heq hne
  cases action with
  | write key value tombstone =>
    have hdisk := hlogged.toOnDisk.write key value tombstone
    obtain ⟨_, _, factory, _, _, _, _, hstored, -, heq, -⟩ :=
      write_spec { e with io := cutAfter count } key value tombstone
    refine ⟨synced, first, ?_, hother Action.noConfusion⟩
    rw [crashedIn, WalEngine.exec]
    rw [heq] at hdisk ⊢
    exact { hdisk with
      lsm := h.lsm
      grows := fun id ↦ (hstored.factory_grows id).1
      synced_le := prefix_rfl
      le_records := h.synced_le
      isResident := fun _ ↦ rfl
      residents := fun r hr hkey ↦ mem_place.mpr (.inr (h.residents r hr hkey))
      flushed := h.flushed }
  | flush =>
    have hflush := doFlush_spec { e with io := cutAfter count } h.lsm
    obtain ⟨hresident, hresidents⟩ := hflush.residents
    obtain ⟨hlsm, -⟩ := hflush.config_eq
    rcases hlogged.onDisk_flush hfits hflush with ⟨hdisk, hsame⟩ | ⟨hdisk, hnew⟩
    · exact ⟨synced, first, { hdisk with
        lsm := hlsm.trans h.lsm
        grows := hflush.grows
        synced_le := prefix_rfl
        le_records := h.synced_le
        isResident := hresident
        residents := fun r hr hkey ↦ hresidents r (h.residents r hr hkey) hkey
        flushed := hsame ▸ h.flushed }, hother Action.noConfusion⟩
    · exact ⟨synced, _, { hdisk with
        lsm := hlsm.trans h.lsm
        grows := hflush.grows
        synced_le := prefix_rfl
        le_records := h.synced_le
        isResident := hresident
        residents := fun r hr hkey ↦ hresidents r (h.residents r hr hkey) hkey
        flushed := fun entries hsome ↦ hnew ▸ h.flushed_flushFirst hsome },
        hother Action.noConfusion⟩
  | compact => exact absurd rfl haction
  | sync =>
    obtain ⟨hall, hnone⟩ := hlogged.onDisk_sync (halts_cutAfter count)
    obtain ⟨_, _, factory, _, heq, hfactory, -⟩ :=
      sync_spec { e with io := cutAfter count }
    rw [crashedIn, WalEngine.exec]
    cases hok : (sync { e with io := cutAfter count }).1 with
    | true =>
      refine ⟨records, first, ?_, fun _ _ ↦ h.history.length_eq.ge⟩
      refine h.crashFinds_of_frame (hall hok) ?_ ?_ ?_ ?_ h.synced_le prefix_rfl
      all_goals rw [heq]
      exact fun id ↦ Disk.Grows.of_eq_or_sync (hfactory id)
    | false =>
      refine ⟨synced, first, ?_, fun _ hfalse ↦ absurd hfalse Bool.false_ne_true⟩
      refine h.crashFinds_of_frame (hnone hok) ?_ ?_ ?_ ?_ prefix_rfl h.synced_le
      all_goals rw [heq]
      exact fun id ↦ Disk.Grows.of_eq_or_sync (hfactory id)
  | watermark bound =>
    refine ⟨synced, first, ?_, hother Action.noConfusion⟩
    exact h.crashFinds_of_frame (hlogged.toOnDisk.of_durable rfl rfl rfl fun _ ↦ prefix_rfl)
      rfl (fun _ ↦ Disk.Grows.refl _) rfl rfl prefix_rfl h.synced_le

variable {crashed : WalEngine} {synced' : List WalRecord} {first' : Option (List SstEntry)}

def recoveredUpTo (synced : List WalRecord) (first : Option (List SstEntry)) : Seq :=
  max (loadedMax (firstTables first)) synced.length

lemma CrashFinds.mem_iff (h : CrashFinds e crashed synced records synced' first')
    (hnumbered : NumberedFrom 1 records) (hresidents : crashed.ResidentsSynced) (v : Entry) :
    (v ∈ synced' ∨ ∃ t ∈ firstTables first', v ∈ t.collectEntries) ↔
      v ∈ records ∧ v.seq ≤ recoveredUpTo synced' first' := by
  constructor
  · rintro (hv | ⟨t, ht, hv⟩)
    · exact ⟨h.le_records.subset hv, (h.numbered.seq_le hv).trans (le_max_right _ _)⟩
    refine ⟨?_, (seq_le_loadedMax ht hv).trans (le_max_left _ _)⟩
    obtain ⟨entries, hsome, -, rfl, -⟩ := mem_firstTables ht
    obtain ⟨-, _, -, hmembers⟩ := h.flushed entries hsome
    rw [collectEntries_adoptBuilt] at hv
    exact ((hmembers v).mp hv).1
  · rintro ⟨hv, hseq⟩
    rcases le_max_iff.mp hseq with htable | hlog
    · cases hone : firstTables first' with
      | nil =>
        rw [hone] at htable
        have hpos := (hnumbered.mem_bounds hv).1
        exact absurd (hpos.trans htable) (by decide)
      | cons t rest =>
        have ht : t ∈ firstTables first' := hone ▸ mem_cons_self
        obtain ⟨entries, hsome, -, hbuilt, hsingle⟩ := mem_firstTables ht
        obtain ⟨⟨_, hhead⟩, upTo, -, hmembers⟩ := h.flushed entries hsome
        rw [hsingle] at htable
        have hmax : v.seq ≤ t.maxSeq := htable.trans (max_le (Nat.zero_le _) le_rfl)
        have hupTo : t.maxSeq ≤ upTo := by
          rw [hbuilt]
          refine Nat.le_of_lt_succ (foldl_seq_lt _ (Nat.succ_pos _) fun r hr ↦ ?_)
          exact Nat.lt_succ_of_le ((hmembers r).mp hr).2.1
        cases hkey : e.mem.isResident v.key with
        | false =>
          refine .inr ⟨t, mem_cons_self, ?_⟩
          rw [hbuilt, collectEntries_adoptBuilt]
          exact (hmembers v).mpr ⟨hv, hmax.trans hupTo, hkey⟩
        | true =>
          -- No table holds a resident record, so it must be in the log.
          refine .inl (hnumbered.mem_of_le h.le_records hv ?_)
          have hsynced := hresidents t (by rw [hhead, hbuilt]; rfl) v (h.residents v hv hkey)
            ((h.isResident _).trans hkey) hmax
          rwa [h.toOnDisk.walRecords_crash] at hsynced
    · exact .inl (hnumbered.mem_of_le h.le_records hv hlog)

lemma forall₂_members {α β : Type*} {related : α → β → Prop} {first : List α}
    {second : List β} (h : Forall₂ related first second) :
    (∀ a ∈ first, ∃ b ∈ second, related a b) ∧ ∀ b ∈ second, ∃ a ∈ first, related a b := by
  induction h with
  | nil => exact ⟨nofun, nofun⟩
  | cons hab _ ih =>
    constructor
    · exact forall_mem_cons.mpr ⟨⟨_, mem_cons_self, hab⟩, fun a ha ↦
        (ih.1 a ha).imp fun b hb ↦ ⟨mem_cons_of_mem _ hb.1, hb.2⟩⟩
    · exact forall_mem_cons.mpr ⟨⟨_, mem_cons_self, hab⟩, fun b hb ↦
        (ih.2 b hb).imp fun a ha ↦ ⟨mem_cons_of_mem _ ha.1, ha.2⟩⟩

lemma OneLife.nodup_history (h : e.OneLife synced records first history) :
    (history.map Entry.seq).Nodup := by
  have hmap : records.map Entry.seq = history.map Entry.seq := by
    refine forall₂_eq_eq_eq.le _ _ ?_
    rw [forall₂_map_left_iff, forall₂_map_right_iff]
    exact h.history.imp fun _ _ hvw ↦ hvw.seq
  rw [← hmap, h.numberedAll]
  exact nodup_range'

lemma CrashFinds.recoveredUpTo_le (h : CrashFinds e crashed synced records synced' first') :
    recoveredUpTo synced' first' ≤ records.length := by
  refine max_le ?_ h.le_records.length_le
  cases hone : firstTables first' with
  | nil => exact Nat.zero_le _
  | cons t rest =>
    have ht : t ∈ firstTables first' := hone ▸ mem_cons_self
    obtain ⟨entries, hsome, -, rfl, hsingle⟩ := mem_firstTables ht
    obtain ⟨-, upTo, hle, hmembers⟩ := h.flushed entries hsome
    rw [← hone, hsingle]
    refine max_le (Nat.zero_le _) (Nat.le_of_lt_succ ?_)
    refine foldl_seq_lt _ (Nat.succ_pos _) fun r hr ↦ ?_
    exact Nat.lt_succ_of_le (((hmembers r).mp hr).2.1.trans hle)

lemma CrashFinds.standsFor_restart (h : CrashFinds e crashed synced records synced' first')
    (hlsm : e.lsm = true) {v w : Entry}
    (hv : v ∈ synced' ∨ ∃ t ∈ firstTables first', v ∈ t.collectEntries) (hw : e.StandsFor v w) :
    crashed.restart.StandsFor v w := by
  obtain ⟨hafter, -⟩ := restart_spec h.lsm
  have hdurably : crashed.Durably v := by
    rcases hv with hv | ⟨t, ht, hv⟩
    · exact h.durably v hv
    · obtain ⟨entries, hsome, -, rfl, -⟩ := mem_firstTables ht
      rw [collectEntries_adoptBuilt] at hv
      exact (h.table entries hsome).durably v hv
  have hcrashed := hw.of_grows (h.lsm.trans hlsm.symm) h.grows
  refine ⟨hw.seq, hw.key, hw.tombstone, ?_⟩
  refine (hcrashed.keeps.crash hdurably).of_isPrefix hafter.lsm fun id ↦ ?_
  rw [hafter.factory]
  exact prefix_rfl

lemma OneLife.get_restart (hlife : e.OneLife synced records first history)
    (h : CrashFinds e crashed synced records synced' first') (hresidents : crashed.ResidentsSynced)
    (key : Key) (at_ : Seq) :
    crashed.restart.get key at_ =
      shown (seenAt history key (min at_ (recoveredUpTo synced' first'))) := by
  obtain ⟨htables, -, hmem, -⟩ := h.toOnDisk.restart h.lsm
  have hfound : ∀ v, v ∈ crashed.restart.versions ↔
      v ∈ synced' ∨ ∃ t ∈ firstTables first', v ∈ t.collectEntries := by
    intro v
    rw [versions, mem_append, hmem, htables, mem_flatMap]
  have hversions := h.mem_iff hlife.numberedAll hresidents
  have hrelated : Option.Rel crashed.restart.StandsFor (crashed.restart.newestAt key at_)
      (seenAt history key (min at_ (recoveredUpTo synced' first'))) := by
    obtain ⟨hforth, hback⟩ := forall₂_members hlife.history
    refine newest_related (fun _ _ hvw ↦ hvw.seq) (fun w hw w' hw' hseq ↦ ?_) (fun v hv ↦ ?_)
      fun w hw ↦ ?_
    · exact inj_on_of_nodup_map hlife.nodup_history (mem_filter.mp hw).1
        (mem_filter.mp hw').1 hseq
    · obtain ⟨hmember, hseen⟩ := mem_filter.mp hv
      obtain ⟨hkey, hat⟩ := of_decide_eq_true hseen
      obtain ⟨hlogged, hupTo⟩ := (hversions v).mp ((hfound v).mp hmember)
      obtain ⟨w, hw, hvw⟩ := hforth v hlogged
      refine ⟨w, mem_filter.mpr ⟨hw, decide_eq_true ⟨hvw.key ▸ hkey, ?_⟩⟩,
        h.standsFor_restart hlife.lsm ((hfound v).mp hmember) hvw⟩
      rw [← hvw.seq]
      exact le_min hat hupTo
    · obtain ⟨hmember, hseen⟩ := mem_filter.mp hw
      obtain ⟨hkey, hat⟩ := of_decide_eq_true hseen
      obtain ⟨v, hv, hvw⟩ := hback w hmember
      rw [← hvw.seq] at hat
      have hkept := (hversions v).mpr ⟨hv, (le_min_iff.mp hat).2⟩
      exact ⟨v, mem_filter.mpr ⟨(hfound v).mpr hkept,
        decide_eq_true ⟨hvw.key.trans hkey, (le_min_iff.mp hat).1⟩⟩,
        h.standsFor_restart hlife.lsm hkept hvw⟩
  rw [get, (h.toOnDisk.restart_readable h.lsm).getHit_eq_newest]
  cases hnewest : crashed.restart.newestAt key at_ with
  | none =>
    rw [hnewest] at hrelated
    cases hseen : seenAt history key (min at_ (recoveredUpTo synced' first')) with
    | none => rfl
    | some w =>
      rw [hseen] at hrelated
      cases hrelated
  | some v =>
    rw [hnewest] at hrelated
    cases hseen : seenAt history key (min at_ (recoveredUpTo synced' first')) with
    | none =>
      rw [hseen] at hrelated
      cases hrelated
    | some w =>
      rw [hseen] at hrelated
      cases hrelated with
      | some hvw => rw [bind_some, hvw.keeps.materialise_eq, hvw.tombstone]; rfl

lemma seenAt_committed {upTo : Seq} (hupTo : upTo ≤ history.length) (action : Action) (key : Key)
    (at_ : Seq) :
    seenAt (committed history action) key (min at_ upTo) = seenAt history key (min at_ upTo) := by
  cases action with
  | write written value tombstone =>
    rw [seenAt, seenAt, committed, filter_append, filter_cons_of_neg, filter_nil, append_nil]
    intro hseen
    have hle := (of_decide_eq_true hseen).2.trans (min_le_right _ _)
    exact absurd (hle.trans hupTo) (Nat.not_succ_le_self _)
  | flush | compact | sync | watermark _ => rfl

/-- A restart after a crash at any point of a life reads the history up to a number that is not
below any synced write, when the crash finds the resident records in the log that are older than
the newest of the first table. -/
theorem recovery_gives_prefix (c : Config) {actions : List Action} {last : Action} (count : ℕ)
    (hmeets : Meets exec ActionFits (c.engine honest) (actions ++ [last]))
    (hcompact : .compact ∉ actions ++ [last])
    (hresidents : ResidentsSynced
      ((run exec (c.engine honest) actions).crashedIn count last)) :
    let e := run exec (c.engine honest) actions
    ∃ n, (∀ before behind, actions = before ++ .sync :: behind →
        (historyOf before).length ≤ n) ∧
      (last = .sync → (sync { e with io := cutAfter count }).1 = true →
        (historyOf actions).length ≤ n) ∧
      ∀ key at_, (e.crashedIn count last).restart.get key at_ =
        shown (seenAt (historyOf (actions ++ [last])) key (min at_ n)) := by
  obtain ⟨hbefore, hlast, -⟩ := hmeets.of_append
  rw [mem_append, not_or, mem_singleton] at hcompact
  obtain ⟨synced, records, first, hlife, -, hsyncs⟩ :=
    (OneLife.start c).run hbefore hcompact.1
  obtain ⟨synced', first', hcrash, hsync⟩ :=
    hlife.crashFinds hlast (fun heq ↦ hcompact.2 heq.symm) count
  refine ⟨recoveredUpTo synced' first', fun before behind hsplit ↦ ?_, fun hlast hok ↦ ?_,
    fun key at_ ↦ ?_⟩
  · exact (hsyncs before behind hsplit).trans
      (hcrash.synced_le.length_le.trans (le_max_right _ _))
  · exact (hsync hlast hok).trans (le_max_right _ _)
  · rw [hlife.get_restart hcrash hresidents, historyOf, foldl_append]
    refine congrArg shown (seenAt_committed ?_ last key at_).symm
    exact hcrash.recoveredUpTo_le.trans hlife.history.length_eq.le

/-- A resident record is synced, a flush goes through, and a second one is cut before its record
is synced; the write between them is gone. -/
theorem recovery_gives_prefix_cutFlush :
    let actions : List Action := [.write [0x41] [1] false, .sync, .write [2] [20, 21] false, .flush,
      .write [3] [30] false]
    let e := run exec
      (Config.engine { resident := [0x41], valueThreshold := 1 } honest) actions
    ResidentsSynced (e.crashedIn 3 .flush) ∧
      ∃ n, (∀ before behind, actions = before ++ .sync :: behind →
          (historyOf before).length ≤ n) ∧
        (Action.flush = .sync → (sync { e with io := cutAfter 3 }).1 = true →
          (historyOf actions).length ≤ n) ∧
        ∀ key at_, (e.crashedIn 3 .flush).restart.get key at_ =
          shown (seenAt (historyOf (actions ++ [.flush])) key (min at_ n)) := by
  have hresidents : ResidentsSynced ((run exec
      (Config.engine { resident := [0x41], valueThreshold := 1 } honest)
      [.write [0x41] [1] false, .sync, .write [2] [20, 21] false, .flush,
        .write [3] [30] false]).crashedIn 3 .flush) := by
    decide +kernel
  exact ⟨hresidents, recovery_gives_prefix { resident := [0x41], valueThreshold := 1 } 3
    (by decide +kernel) (by decide) hresidents⟩

def holeRun : List Action := [.write [0x41] [1] false, .write [2] [20] false]

/-- The second write is read after the restart and the first one, which is older, is gone. -/
theorem recovery_leaves_hole :
    let e := run exec (Config.engine { resident := [0x41] } honest) holeRun
    ¬ ∃ n, ∀ key at_, (e.crashedIn 10 .flush).restart.get key at_ =
      shown (seenAt (historyOf (holeRun ++ [.flush])) key (min at_ n)) := by
  intro e
  rintro ⟨n, hcut⟩
  have hyoung := hcut [2] 2
  have hold := hcut [0x41] 2
  have hread : (e.crashedIn 10 .flush).restart.get [2] 2 = some [20] := by decide +kernel
  have hgone : (e.crashedIn 10 .flush).restart.get [0x41] 2 = none := by decide +kernel
  rw [hread] at hyoung
  rw [hgone] at hold
  match n with
  | 0 => exact absurd hyoung (by decide)
  | 1 => exact absurd hyoung (by decide)
  | n + 2 =>
    rw [min_eq_left (Nat.le_add_left 2 n)] at hold
    exact absurd hold (by decide)

end Lockstep.Storage.WalEngine
