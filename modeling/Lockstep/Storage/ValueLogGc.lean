import Mathlib
import Lockstep.Storage.Logged
import Lockstep.Storage.Sound

/-!
# Reclaiming value-log generations

A compaction with a value log moves the surviving large values into a fresh generation and gives the
generations they came from to the factory to reclaim, all but the active one.

A live pointer never leads into a reclaimed generation, and so it still resolves when the factory
has freed the bytes, in every run that keeps to three rules (`GcSafe`): values go to a generation
that is not reclaimed, a compaction reclaims a generation only when neither the memtable nor a table
it leaves alone points into it, and recovery finds no pointer into a reclaimed generation on the
disks (`reclaimed_unreferenced`).
-/

namespace Lockstep.Storage.WalEngine

open Library GuardedRun Disk.Grows SSTableReader List Option

variable {entries : List SstEntry} {value : Value} {bucket gen : ℕ}

def pointsInto (v : Entry) : Option ℕ :=
  if v.vlog then (VlogPtr.decode v.value).map VlogPtr.gen else none

def freshGen (e : WalEngine) : ℕ := e.vlogBaseId + (e.vlogGenCounter + 1)

def keptVersions (e : WalEngine) (bucket : ℕ) : List Entry :=
  e.mem.entries ++ (e.sstables.filter fun t ↦
    !((e.compactionInputs bucket).map sstableId).contains t.sstableId).flatMap
      collectEntries

def onDiskVersions (e : WalEngine) : List Entry :=
  e.crash.walRecords ++
    (e.crash.loadTables (foldManifestImage e.manifestDisk.durable).live).flatMap
      collectEntries

def reopen (e : WalEngine) : WalEngine :=
  recover { e with
    disk := e.disk.crash
    manifestDisk := e.manifestDisk.crash
    factory := fun id ↦ (e.factory id).crash }

structure GcState where
  engine : WalEngine
  reclaimed : List ℕ := []

inductive GcEvent where
  | call (action : Action)
  | recover
  | restart
  deriving DecidableEq

namespace GcState

def next (e : WalEngine) : GcEvent → WalEngine
  | .call action => e.exec action
  | .recover => e.reopen
  | .restart => e.restart

def step (s : GcState) (event : GcEvent) : GcState where
  engine := next s.engine event
  reclaimed := s.reclaimed ++ (next s.engine event).reclaimedVlogIds

def freed (s : GcState) : WalEngine :=
  { s.engine with factory := fun id ↦ if id ∈ s.reclaimed then {} else s.engine.factory id }

/-- The fresh generation of a compaction is new, and what it takes values from is not pointed into
by any version that it leaves alone. -/
def CompactsSafely (s : GcState) (bucket : ℕ) : Prop :=
  ((s.engine.factory s.engine.freshGen).image = [] ∧ s.engine.freshGen < 2 ^ 64 ∧
    s.engine.freshGen ∉ s.reclaimed ∧ (s.engine.inputEntries bucket).length < 2 ^ 31) ∧
  ∀ v ∈ s.engine.inputEntries bucket, ∀ gen ∈ pointsInto v, gen ≠ s.engine.vlogGen →
    ∀ w ∈ s.engine.keptVersions bucket, pointsInto w ≠ some gen

instance (s : GcState) (bucket : ℕ) : Decidable (s.CompactsSafely bucket) :=
  inferInstanceAs (Decidable (_ ∧ _))

/-- Values go to a generation that is not reclaimed, compactions are safe, and recovery finds no
pointer into a reclaimed generation. -/
def GcSafe (s : GcState) : GcEvent → Prop
  | .call (.write _ value tombstone) => s.engine.SeparateFits value tombstone ∧
    (s.engine.Separates value tombstone → s.engine.vlogGen ∉ s.reclaimed)
  | .call .compact => ∀ bucket, s.engine.chosenBucket = some bucket → s.CompactsSafely bucket
  | .call _ => True
  | .recover | .restart =>
    ∀ v ∈ s.engine.onDiskVersions, ∀ gen ∈ pointsInto v, gen ∉ s.reclaimed

instance decidableCompactSafe (s : GcState) : Decidable
    (∀ bucket, s.engine.chosenBucket = some bucket → s.CompactsSafely bucket) :=
  match s.engine.chosenBucket with
  | none => isTrue fun _ hbucket ↦ absurd hbucket.symm (some_ne_none _)
  | some bucket =>
    decidable_of_iff (s.CompactsSafely bucket)
      ⟨fun hsafe _ hb ↦ some.inj hb ▸ hsafe, fun hall ↦ hall bucket rfl⟩

instance (s : GcState) : (event : GcEvent) → Decidable (s.GcSafe event)
  | .call (.write _ _ _) => inferInstanceAs (Decidable (_ ∧ _))
  | .call .compact => decidableCompactSafe s
  | .call .flush | .call .sync | .call (.watermark _) => isTrue trivial
  | .recover => inferInstanceAs (Decidable (∀ v ∈ s.engine.onDiskVersions, _))
  | .restart => inferInstanceAs (Decidable (∀ v ∈ s.engine.onDiskVersions, _))

end GcState

def Resolves (e : WalEngine) (reclaimed : List ℕ) (v : Entry) : Prop :=
  v.vlog = true → (e.derefValue v.value).isSome ∧ ∀ gen ∈ pointsInto v, gen ∉ reclaimed

variable {e after : WalEngine} {reclaimed : List ℕ} {v : Entry}

lemma FactoryGrows.isSome_derefValue (hgrows : e.FactoryGrows after) (hlsm : after.lsm = e.lsm)
    {pointer : Value} (h : (e.derefValue pointer).isSome) : (after.derefValue pointer).isSome := by
  obtain ⟨value, hvalue⟩ := isSome_iff_exists.mp h
  refine isSome_iff_exists.mpr ⟨value, ?_⟩
  exact derefValue_of_isPrefix hlsm (fun ptr _ ↦ (hgrows ptr.gen).image) hvalue

lemma Resolves.of_grows (h : e.Resolves reclaimed v) (hlsm : after.lsm = e.lsm)
    (hgrows : e.FactoryGrows after) : after.Resolves reclaimed v :=
  fun hvlog ↦ (h hvlog).imp_left (hgrows.isSome_derefValue hlsm)

lemma exists_pointsInto (hvlog : v.vlog = true) (h : e.derefValue v.value = some value) :
    ∃ gen, pointsInto v = some gen ∧ (e.factory gen).image ≠ [] ∧ value.length < 2 ^ 32 := by
  rw [derefValue] at h
  split_ifs at h
  cases hdecode : VlogPtr.decode v.value with
  | none => simp [hdecode] at h
  | some ptr =>
    simp only [hdecode] at h
    split_ifs at h
    cases hread : (e.factory ptr.gen).read (ptr.valueOff - kVlogRecordHeaderBytes)
        (kVlogRecordHeaderBytes + ptr.vlen + kVlogCrcBytes) with
    | none => simp [hread] at h
    | some window =>
      simp only [hread] at h
      refine ⟨ptr.gen, by rw [pointsInto, if_pos hvlog, hdecode]; rfl, fun hnil ↦ ?_, ?_⟩
      · rw [Disk.read, hnil] at hread
        split_ifs at hread with hlong
        rw [length_nil, kVlogRecordHeaderBytes] at hlong
        omega
      · have hvlen := VlogPtr.vlen_lt hdecode
        exact (length_le_of_vlogDeref h).trans_lt hvlen

lemma pointsInto_of_encode {ptr : VlogPtr} (hvlog : v.vlog = true)
    (hvalue : v.value = ptr.encode) (hfits : ptr.Fits) (hgen : ptr.gen = gen) :
    pointsInto v = some gen := by
  rw [pointsInto, if_pos hvlog, hvalue, VlogPtr.decode_encode hfits, map_some, hgen]

/-! ### Moving values -/

/-- What moving the values of some entries has done so far: the fresh generation is as long as the
count of it, and every pointer leads into it, or is an old one that was kept. -/
structure Rewriting (e : WalEngine) (fresh : ℕ) (entries : List SstEntry) (r : VlogRewrite) :
    Prop where
  lsm : r.engine.lsm = true
  grows : e.FactoryGrows r.engine
  freshLen : (r.engine.factory fresh).image.length = r.freshLen
  freshLen_le : r.freshLen ≤ entries.length * (2 ^ 32 + 12)
  merged : ∀ out ∈ r.merged, out.vlog = true →
    pointsInto out = some fresh ∧ (r.engine.derefValue out.value).isSome ∨
      out ∈ entries ∧ r.keptAnOldGen = true

variable {fresh : ℕ}

lemma Rewriting.moved {r : VlogRewrite} (h : Rewriting e fresh entries r)
    (hcount : entries.length < 2 ^ 31) (hfresh : fresh < 2 ^ 64) {entry : SstEntry}
    (hvlog : entry.vlog = true) (hsize : value.length < 2 ^ 32) {engine : WalEngine}
    (hlsm : engine.lsm = true) (hfactory : engine.factory = Function.update r.engine.factory fresh
      ((r.engine.factory fresh).append (encodeVlogRecord value r.freshLen fresh).bytes)) :
    Rewriting e fresh (entries ++ [entry])
      { engine := engine
        freshLen := r.freshLen + (encodeVlogRecord value r.freshLen fresh).bytes.length
        keptAnOldGen := r.keptAnOldGen
        merged := r.merged ++
          [{ entry with value := (encodeVlogRecord value r.freshLen fresh).ptr.encode }] } := by
  have hbytes := length_encodeVlogRecord value r.freshLen fresh
  have hlen := h.freshLen_le
  have hoff : r.freshLen + kVlogRecordHeaderBytes < 2 ^ 64 := by
    rw [kVlogRecordHeaderBytes]
    omega
  have hfits : (encodeVlogRecord value r.freshLen fresh).ptr.Fits :=
    ⟨hoff, Nat.mod_lt _ (by decide), Crc32.compute_lt _, hfresh⟩
  have hgrows : r.engine.FactoryGrows engine := by
    intro id
    rw [hfactory]
    exact grows_update (append _ _) id
  have himage : (engine.factory fresh).image =
      (r.engine.factory fresh).image ++
        ((encodeVlogRecord value r.freshLen fresh).bytes ++ []) := by
    rw [hfactory, Function.update_self, Disk.image_append, append_nil]
  have hderef : engine.derefValue (encodeVlogRecord value r.freshLen fresh).ptr.encode =
      some value := by
    rw [← h.freshLen] at himage hoff ⊢
    exact derefValue_encodeVlogRecord hlsm himage hsize hoff hfresh
  refine ⟨hlsm, fun id ↦ (h.grows id).trans (hgrows id), ?_, ?_, fun out hout hpointer ↦ ?_⟩
  · rw [himage, append_nil, length_append, h.freshLen]
  · rw [hbytes, length_append, length_singleton]
    change r.freshLen + (8 + value.length + 4) ≤ _
    omega
  · rcases mem_append.mp hout with hold | hnew
    · exact (h.merged out hold hpointer).imp
        (And.imp_right (hgrows.isSome_derefValue (hlsm.trans h.lsm.symm)))
        (And.imp_left (mem_append_left _))
    · rw [mem_singleton.mp hnew]
      exact .inl ⟨pointsInto_of_encode hvlog rfl hfits rfl, by rw [hderef]; rfl⟩

lemma Rewriting.rewriteEntry {r : VlogRewrite} (h : Rewriting e fresh entries r)
    (hcount : entries.length < 2 ^ 31) (hfresh : fresh < 2 ^ 64) (entry : SstEntry) :
    Rewriting e fresh (entries ++ [entry]) (rewriteEntry fresh r entry) := by
  have hlen : r.freshLen ≤ (entries ++ [entry]).length * (2 ^ 32 + 12) := by
    refine h.freshLen_le.trans (Nat.mul_le_mul_right _ ?_)
    rw [length_append]
    exact Nat.le_add_right _ _
  -- The entry stays as it is, with its old pointer if it has one.
  have hkeep : ∀ engine : WalEngine, engine.lsm = true → e.FactoryGrows engine →
      (engine.factory fresh).image.length = r.freshLen → ∀ kept, (entry.vlog = true → kept = true) →
      (r.keptAnOldGen = true → kept = true) →
      (∀ out : Entry, (r.engine.derefValue out.value).isSome →
        (engine.derefValue out.value).isSome) →
      Rewriting e fresh (entries ++ [entry])
        { r with engine := engine, keptAnOldGen := kept, merged := r.merged ++ [entry] } := by
    intro engine hlsm hgrows hfreshLen kept hentry hkept hderef
    refine ⟨hlsm, hgrows, hfreshLen, hlen, fun out hout hvlog ↦ ?_⟩
    rcases mem_append.mp hout with hold | hnew
    · refine (h.merged out hold hvlog).imp (fun hin ↦ ⟨hin.1, hderef out hin.2⟩) fun hin ↦ ?_
      exact ⟨mem_append_left _ hin.1, hkept hin.2⟩
    · rw [mem_singleton.mp hnew] at hvlog ⊢
      exact .inr ⟨mem_append_right _ mem_cons_self, hentry hvlog⟩
  rw [WalEngine.rewriteEntry]
  split_ifs with hinline
  · have hno : entry.vlog = false := by simpa using hinline
    exact hkeep r.engine h.lsm h.grows h.freshLen r.keptAnOldGen
      (fun hvlog ↦ absurd (hno.symm.trans hvlog) Bool.false_ne_true) id fun _ hsome ↦ hsome
  have hvlog : entry.vlog = true := by simpa using hinline
  cases hold : r.engine.derefValue entry.value with
  | none =>
    exact hkeep r.engine h.lsm h.grows h.freshLen true (fun _ ↦ rfl) (fun _ ↦ rfl)
      fun _ hsome ↦ hsome
  | some value =>
    obtain ⟨-, -, -, hsize⟩ := exists_pointsInto hvlog hold
    obtain ⟨ok, io, d, happend, hlanded, hlost, -⟩ := r.engine.appendDisk_spec fresh
      (encodeVlogRecord value r.freshLen fresh).bytes
    dsimp only
    rw [happend]
    cases ok with
    | false =>
      obtain rfl := hlost rfl
      rw [Function.update_eq_self]
      exact hkeep { r.engine with io := io } h.lsm h.grows h.freshLen true (fun _ ↦ rfl)
        (fun _ ↦ rfl) fun _ hsome ↦ hsome
    | true =>
      obtain rfl := hlanded rfl
      exact h.moved hcount hfresh hvlog hsize h.lsm rfl

lemma Rewriting.foldl {entries rest : List SstEntry} {r : VlogRewrite}
    (h : Rewriting e fresh entries r) (hcount : (entries ++ rest).length < 2 ^ 31)
    (hfresh : fresh < 2 ^ 64) :
    Rewriting e fresh (entries ++ rest) (rest.foldl (WalEngine.rewriteEntry fresh) r) := by
  induction rest generalizing entries r with
  | nil =>
    rw [append_nil]
    exact h
  | cons entry rest ih =>
    have hfew : entries.length < 2 ^ 31 := by
      rw [length_append] at hcount
      exact (Nat.le_add_right _ _).trans_lt hcount
    have hnext := h.rewriteEntry hfew hfresh entry
    rw [append_cons] at hcount ⊢
    exact ih hnext hcount

/-- What a compaction has when it is about to install its table: the merged entries with pointers
that resolve, into the fresh generation when an old one is to be reclaimed. -/
structure Rewritten (e : WalEngine) (bucket : ℕ) : Prop where
  frame : ∃ io factory counter, (e.rewritten bucket).2.2 =
    { e with io := io, factory := factory, vlogGenCounter := counter }
  grows : e.FactoryGrows (e.rewritten bucket).2.2
  merged : ∀ out ∈ (e.rewritten bucket).1, out.vlog = true →
    pointsInto out = some e.freshGen ∧ ((e.rewritten bucket).2.2.derefValue out.value).isSome ∨
      out ∈ e.mergedEntries bucket ∧ (e.rewritten bucket).2.1 = []
  reclaims : ∀ gen ∈ (e.rewritten bucket).2.1, gen ≠ e.vlogGen ∧
    ∃ v ∈ e.mergedEntries bucket, pointsInto v = some gen

lemma mem_vlogGens (h : gen ∈ vlogGens entries) : ∃ v ∈ entries, pointsInto v = some gen := by
  rw [vlogGens, mem_eraseDups, mem_filterMap] at h
  obtain ⟨v, hv, hgen⟩ := h
  obtain ⟨hmem, hvlog⟩ := mem_filter.mp hv
  exact ⟨v, hmem, by rw [pointsInto, if_pos hvlog, hgen]⟩

lemma rewritten_of_inline (h : e.rewritten bucket = (e.mergedEntries bucket, [], e)) :
    Rewritten e bucket := by
  refine ⟨e.rewritten_frame bucket, ?_, ?_, ?_⟩
  all_goals rw [h]
  · exact fun id ↦ refl _
  · exact fun out hout _ ↦ .inr ⟨hout, rfl⟩
  · exact nofun

lemma syncDisk_grows (e : WalEngine) (id : ℕ) :
    ∃ ok last, e.syncDisk id = (ok, last) ∧ last.lsm = e.lsm ∧ e.FactoryGrows last ∧
      last.vlogGen = e.vlogGen := by
  obtain ⟨ok, io, d, hsync, hsynced, hsame, -⟩ := e.syncDisk_spec id
  have hd : (e.factory id).Grows d := by
    cases ok with
    | true => exact hsynced rfl ▸ Disk.Grows.sync _
    | false => exact hsame rfl ▸ Disk.Grows.refl _
  exact ⟨ok, _, hsync, rfl, grows_update hd, rfl⟩

lemma rewritten_of_moved (hlsm : e.lsm = true) (hempty : (e.factory e.freshGen).image = [])
    (hfresh : e.freshGen < 2 ^ 64) (hcount : (e.mergedEntries bucket).length < 2 ^ 31)
    (hactive : e.valueLogActive = true) (hany : (e.mergedEntries bucket).any Entry.vlog = true) :
    Rewritten e bucket := by
  have hstart : Rewriting e e.freshGen []
      { engine := { e with vlogGenCounter := e.vlogGenCounter + 1 } } :=
    ⟨hlsm, fun id ↦ refl _, congrArg length hempty, Nat.zero_le _, nofun⟩
  have hmoved := @Rewriting.foldl e e.freshGen [] (e.mergedEntries bucket) _ hstart hcount hfresh
  set r := (e.mergedEntries bucket).foldl (WalEngine.rewriteEntry e.freshGen)
    { engine := { e with vlogGenCounter := e.vlogGenCounter + 1 } } with hr
  obtain ⟨ok, last, hsync, hsyncLsm, hsyncGrows, hsyncGen⟩ := r.engine.syncDisk_grows e.freshGen
  have heq : e.rewritten bucket =
      (r.merged, if ok = false ∨ r.keptAnOldGen = true then []
        else (vlogGens (e.mergedEntries bucket)).filter fun gen ↦ gen ≠ last.vlogGen, last) := by
    rw [rewritten, hactive, if_pos rfl, rewriteVlogForCompaction, if_neg (by simp [hany])]
    change (if (!(r.engine.syncDisk e.freshGen).1) = true ∨ r.keptAnOldGen = true then
        (r.merged, [], (r.engine.syncDisk e.freshGen).2)
      else (r.merged, (vlogGens (e.mergedEntries bucket)).filter fun gen ↦
        gen ≠ (r.engine.syncDisk e.freshGen).2.vlogGen, (r.engine.syncDisk e.freshGen).2)) = _
    rw [hsync]
    cases ok <;> cases r.keptAnOldGen <;> rfl
  obtain ⟨_, _, hengine⟩ := foldl_rewriteEntry_frame e.freshGen (e.mergedEntries bucket)
    { engine := { e with vlogGenCounter := e.vlogGenCounter + 1 } }
  refine ⟨e.rewritten_frame bucket, ?_, ?_, ?_⟩
  all_goals rw [heq]
  · exact fun id ↦ (hmoved.grows id).trans (hsyncGrows id)
  · intro out hout hvlog
    rcases hmoved.merged out hout hvlog with ⟨hinto, hsome⟩ | ⟨hkept, hold⟩
    · exact .inl ⟨hinto, hsyncGrows.isSome_derefValue hsyncLsm hsome⟩
    · exact .inr ⟨hkept, if_pos (.inr hold)⟩
  · intro gen hgen
    split_ifs at hgen
    · cases hgen
    · obtain ⟨hmem, hne⟩ := mem_filter.mp hgen
      refine ⟨?_, mem_vlogGens hmem⟩
      rw [hsyncGen, hengine] at hne
      exact of_decide_eq_true hne

lemma rewritten_spec (hlsm : e.lsm = true) (hempty : (e.factory e.freshGen).image = [])
    (hfresh : e.freshGen < 2 ^ 64) (hcount : (e.mergedEntries bucket).length < 2 ^ 31) :
    Rewritten e bucket := by
  cases hactive : e.valueLogActive with
  | false =>
    refine rewritten_of_inline ?_
    rw [rewritten, hactive]
    rfl
  | true =>
    by_cases hany : (e.mergedEntries bucket).any Entry.vlog = true
    · exact rewritten_of_moved hlsm hempty hfresh hcount hactive hany
    · refine rewritten_of_inline ?_
      rw [rewritten, hactive, if_pos rfl, rewriteVlogForCompaction, if_pos (by simpa using hany)]

lemma loadTables_resolve (hactive : e.valueLogActive = true) {live : List LiveRec}
    {t : SSTableReader} (ht : t ∈ e.loadTables live) (hv : v ∈ t.collectEntries)
    (hvlog : v.vlog = true) : (e.derefValue v.value).isSome := by
  induction live with
  | nil => cases ht
  | cons lr live ih =>
    rw [loadTables] at ht
    cases hload : e.loadTable lr with
    | none => simp [hload] at ht
    | some loaded =>
      simp only [hload, hactive, Bool.true_and, Bool.not_eq_true'] at ht
      split_ifs at ht with hresolve
      · cases ht
      rcases mem_cons.mp ht with rfl | hrest
      · have hall : e.vlogPointersResolve t = true := by simpa using hresolve
        have hone := all_eq_true.mp hall v hv
        simpa [hvlog] using hone
      · exact ih hrest

lemma recover_resolves (hlsm : e.lsm = true) (hactive : e.valueLogActive = true)
    (hv : v ∈ e.recover.versions) :
    (v ∈ e.walRecords ∨ v ∈ (e.loadTables (foldManifestImage e.manifestDisk.image).live).flatMap
      collectEntries) ∧
      (v.vlog = true → (e.recover.derefValue v.value).isSome) := by
  obtain ⟨hafter, base, hbase⟩ := recover_spec hlsm
  have hderef : ∀ pointer, e.recover.derefValue pointer = e.derefValue pointer :=
    fun pointer ↦ derefValue_congr hafter.lsm hafter.factory pointer
  rcases mem_append.mp hv with hmem | htable
  · have hreplay : ∀ w ∈ (base.replayImage e.disk.image).mem.entries,
        w ∈ e.walRecords ∧ (w.vlog = true → (base.derefValue w.value).isSome) := by
      rw [replayImage, RecordStream.scan_eq_steps]
      refine RecordStream.steps_keeps (fun r : Replay ↦ ∀ w ∈ r.mem.entries,
        w ∈ e.walRecords ∧ (w.vlog = true → (base.derefValue w.value).isSome)) ?_
        (forall_mem_nil _)
      intro r record hrecord next hr hnext w hw
      rw [replayRecord] at hnext
      split_ifs at hnext with hcovered hgap hbroken
      · exact hr w (some.inj hnext ▸ hw)
      rw [← some.inj hnext] at hw
      rcases Memtable.mem_place.mp hw with rfl | hold
      · refine ⟨hrecord, fun hvlog ↦ ?_⟩
        rw [← not_isNone, Bool.not_eq_true']
        exact Bool.eq_false_iff.mpr fun hnone ↦ hbroken ⟨hvlog, hnone⟩
      · exact hr w hold
    rw [hbase.replayed.1] at hmem
    obtain ⟨hlogged, hsome⟩ := hreplay v hmem
    refine ⟨.inl hlogged, fun hvlog ↦ ?_⟩
    rw [hderef, ← @derefValue_congr e base hbase.lsm hbase.factory]
    exact hsome hvlog
  · rw [hafter.sstables] at htable
    obtain ⟨t, ht, hmem⟩ := mem_flatMap.mp htable
    refine ⟨.inr htable, fun hvlog ↦ ?_⟩
    rw [hderef]
    exact loadTables_resolve hactive ht hmem hvlog

/-! ### One event -/

structure GcState.Intact (s : GcState) : Prop where
  lsm : s.engine.lsm = true
  active : s.engine.valueLogActive = true
  resolves : ∀ v ∈ s.engine.versions, s.engine.Resolves s.reclaimed v
  reclaimed : ∀ gen ∈ s.engine.reclaimedVlogIds, gen ∈ s.reclaimed

variable {s : GcState}

lemma valueLogActive_of_config (hlsm : after.lsm = e.lsm) (hconfig : after.config = e.config) :
    after.valueLogActive = e.valueLogActive := by
  rw [valueLogActive, valueLogActive, hlsm]
  rw [show after.valueThreshold = e.valueThreshold from congrArg Config.valueThreshold hconfig]

lemma Resolves.reclaim {more : List ℕ} (h : e.Resolves reclaimed v)
    (hmore : ∀ gen ∈ pointsInto v, gen ∈ more → gen ∈ reclaimed) :
    e.Resolves (reclaimed ++ more) v := by
  intro hvlog
  obtain ⟨hsome, hnot⟩ := h hvlog
  refine ⟨hsome, fun gen hgen hmem ↦ hnot gen hgen ?_⟩
  exact (mem_append.mp hmem).elim id (hmore gen hgen)

variable {event : GcEvent}

lemma GcState.intact_of_resolves (hlsm : (next s.engine event).lsm = true)
    (hactive : (next s.engine event).valueLogActive = true)
    (hresolves : ∀ v ∈ (next s.engine event).versions,
      (next s.engine event).Resolves s.reclaimed v)
    (hreclaimed : ∀ gen ∈ (next s.engine event).reclaimedVlogIds, gen ∈ s.reclaimed) :
    (s.step event).Intact where
  lsm := hlsm
  active := hactive
  resolves v hv := (hresolves v hv).reclaim fun gen _ hgen ↦ hreclaimed gen hgen
  reclaimed _ hgen := mem_append_right _ hgen

lemma Stored.resolves {tombstone : Bool} {stored : Value} {isVlog : Bool} {factory : ℕ → Disk}
    {len : ℕ} (h : Stored e value tombstone stored isVlog factory len)
    (hfits : e.SeparateFits value tombstone)
    (hgen : e.Separates value tombstone → e.vlogGen ∉ reclaimed) (hlsm : after.lsm = true)
    (hfactory : after.factory = factory) (hvalue : v.value = stored) (hvlog : v.vlog = isVlog) :
    after.Resolves reclaimed v := by
  intro hpointer
  cases h with
  | inline => cases hvlog.symm.trans hpointer
  | separated hlarge =>
    obtain ⟨hsize, hcount, hoffFits, hgenFits⟩ := hfits hlarge
    have himage : (after.factory e.vlogGen).image = (e.factory e.vlogGen).image ++
        ((encodeVlogRecord value (e.factory e.vlogGen).image.length e.vlogGen).bytes ++ []) := by
      rw [hfactory, Function.update_self, Disk.image_append, append_nil, hcount]
    have hderef := derefValue_encodeVlogRecord hlsm himage hsize (hcount ▸ hoffFits) hgenFits
    have hinto := pointsInto_of_encode hvlog hvalue
      ⟨hoffFits, Nat.mod_lt _ (by decide), Crc32.compute_lt _, hgenFits⟩ rfl
    rw [hcount] at hderef
    refine ⟨by rw [hvalue, hderef]; rfl, fun gen hmem ↦ ?_⟩
    rw [← some.inj (hinto.symm.trans hmem)]
    exact hgen hlarge

lemma GcState.Intact.write (h : s.Intact) {key : Key} {tombstone : Bool}
    (hfits : s.engine.SeparateFits value tombstone)
    (hgen : s.engine.Separates value tombstone → s.engine.vlogGen ∉ s.reclaimed) :
    (s.step (.call (.write key value tombstone))).Intact := by
  obtain ⟨hlsm, hconfig⟩ := s.engine.write_config key value tombstone
  obtain ⟨stored, isVlog, factory, len, _, _, _, hstored, -, heq, -⟩ :=
    s.engine.write_spec key value tombstone
  refine GcState.intact_of_resolves (hlsm.trans h.lsm)
    ((valueLogActive_of_config hlsm hconfig).trans h.active) (fun v hv ↦ ?_) ?_
  · change v ∈ (s.engine.write key value tombstone).versions at hv
    change (s.engine.write key value tombstone).Resolves s.reclaimed v
    rw [heq] at hv ⊢
    rcases mem_append.mp hv with hmem | htable
    · rcases Memtable.mem_place.mp hmem with rfl | hold
      · exact hstored.resolves hfits hgen h.lsm rfl rfl rfl
      · exact (h.resolves v (mem_append_left _ hold)).of_grows rfl
          fun id ↦ (hstored.factory_grows id).1
    · exact (h.resolves v (mem_append_right _ htable)).of_grows rfl
        fun id ↦ (hstored.factory_grows id).1
  · change ∀ gen ∈ (s.engine.write key value tombstone).reclaimedVlogIds, gen ∈ s.reclaimed
    rw [heq]
    exact h.reclaimed

lemma GcState.Intact.of_grows (h : s.Intact) {action : Action}
    (hgrows : s.engine.FactoryGrows (s.engine.exec action))
    (hversions : ∀ v ∈ (s.engine.exec action).versions, v ∈ s.engine.versions)
    (hreclaimed : (s.engine.exec action).reclaimedVlogIds = s.engine.reclaimedVlogIds) :
    (s.step (.call action)).Intact := by
  obtain ⟨hlsm, hconfig⟩ := exec_config h.lsm action
  refine GcState.intact_of_resolves hlsm
    ((valueLogActive_of_config (hlsm.trans h.lsm.symm) hconfig).trans h.active) (fun v hv ↦ ?_) ?_
  · exact (h.resolves v (hversions v hv)).of_grows (hlsm.trans h.lsm.symm) hgrows
  · change ∀ gen ∈ (s.engine.exec action).reclaimedVlogIds, gen ∈ s.reclaimed
    rw [hreclaimed]
    exact h.reclaimed

lemma Flushed.reclaimed_eq (h : Flushed e after) :
    after.reclaimedVlogIds = e.reclaimedVlogIds := by
  cases h <;> rfl

lemma doCompact_reclaims (h : ∀ bucket, e.chosenBucket = some bucket → Rewritten e bucket) :
    e.FactoryGrows e.doCompact ∧ e.doCompact.mem = e.mem ∧
      (e.doCompact.sstables = e.sstables ∧ e.doCompact.reclaimedVlogIds = e.reclaimedVlogIds ∨
        ∃ bucket, e.chosenBucket = some bucket ∧
          (e.rewritten bucket).2.2.FactoryGrows e.doCompact ∧
          e.doCompact.versions = e.keptVersions bucket ++ (e.rewritten bucket).1 ∧
          e.doCompact.reclaimedVlogIds = e.reclaimedVlogIds ++ (e.rewritten bucket).2.1) := by
  rcases e.doCompact_cases with ⟨hidle, -⟩ | ⟨bucket, hbucket, -, heq⟩
  · rw [hidle]
    exact ⟨fun id ↦ refl _, rfl, .inl ⟨rfl, rfl⟩⟩
  have hrewritten := h bucket hbucket
  obtain ⟨_, _, _, hframe⟩ := hrewritten.frame
  obtain ⟨io, factory, next, logged, after, truncSeq, -, hgrows, hlogs, hcases⟩ :=
    (e.rewritten bucket).2.2.replaceTables_spec (fun _ ↦ trivial) (e.rewritten bucket).1
      (e.rewritten bucket).2.1 ((e.compactionInputs bucket).map sstableId)
      ((e.compactionInputs bucket).foldl (fun most t ↦ max most t.maxSeq) kNoSeq)
  obtain ⟨_, _, _, _, hafter⟩ := hlogs.frame
  have hall : e.FactoryGrows after := by
    rw [hafter]
    exact fun id ↦ (hrewritten.grows id).trans (hgrows id)
  have hmem : after.mem = e.mem := by rw [hafter, hframe]
  rcases hcases with ⟨-, hsame⟩ | ⟨-, hnew⟩
  · rw [heq, hsame]
    refine ⟨hall, hmem, .inl ⟨?_, ?_⟩⟩
    all_goals rw [hafter, hframe]
  rw [heq, hnew]
  refine ⟨hall, hmem, .inr ⟨bucket, hbucket, ?_, ?_, ?_⟩⟩
  · rw [hafter]
    exact hgrows
  · rw [versions, keptVersions, append_assoc]
    rw [hmem, flatMap_append, hframe]
    refine congrArg _ (congrArg _ ?_)
    rw [mergedTable]
    split_ifs with hempty
    · rw [hempty]
      rfl
    · rw [toList_some, flatMap_singleton, collectEntries_nextTable]
  · rw [hframe]

lemma vlog_of_pointsInto (h : pointsInto v = some gen) : v.vlog = true := by
  by_contra hno
  rw [pointsInto, if_neg hno] at h
  cases h

lemma GcState.Intact.image_ne_nil (h : s.Intact) (hv : v ∈ s.engine.versions)
    (hinto : pointsInto v = some gen) : (s.engine.factory gen).image ≠ [] := by
  obtain ⟨hsome, -⟩ := h.resolves v hv (vlog_of_pointsInto hinto)
  obtain ⟨_, hvalue⟩ := isSome_iff_exists.mp hsome
  obtain ⟨gen', hgen', hfull, -⟩ := exists_pointsInto (vlog_of_pointsInto hinto) hvalue
  rwa [some.inj (hinto.symm.trans hgen')]

lemma mem_versions_of_kept (hv : v ∈ e.keptVersions bucket) : v ∈ e.versions := by
  rcases mem_append.mp hv with hmem | htable
  · exact mem_append_left _ hmem
  · obtain ⟨t, ht, hin⟩ := mem_flatMap.mp htable
    exact mem_append_right _ (mem_flatMap.mpr ⟨t, (mem_filter.mp ht).1, hin⟩)

lemma mem_versions_of_merged (hv : v ∈ e.mergedEntries bucket) : v ∈ e.versions :=
  (e.mem_inputEntries_or bucket).mp (Or.inl (mem_inputEntries_of_merged hv))

lemma GcState.Intact.reclaimed_or (h : s.Intact) (hrewritten : Rewritten s.engine bucket)
    (hgen : gen ∈ s.engine.reclaimedVlogIds ++ (s.engine.rewritten bucket).2.1) :
    gen ∈ s.reclaimed ∨ gen ≠ s.engine.vlogGen ∧
      ∃ v ∈ s.engine.mergedEntries bucket, pointsInto v = some gen :=
  (mem_append.mp hgen).imp (h.reclaimed gen) (hrewritten.reclaims gen)

lemma GcState.Intact.compact (h : s.Intact)
    (hsafe : ∀ bucket, s.engine.chosenBucket = some bucket → s.CompactsSafely bucket) :
    (s.step (.call .compact)).Intact := by
  have hrewritten : ∀ bucket, s.engine.chosenBucket = some bucket →
      Rewritten s.engine bucket := by
    intro bucket hbucket
    obtain ⟨⟨hempty, hfresh, -, hcount⟩, -⟩ := hsafe bucket hbucket
    exact rewritten_spec h.lsm hempty hfresh
      ((compactMerge_subperm _ _).length_le.trans_lt hcount)
  obtain ⟨hgrows, hmem, ⟨htables, hsame⟩ | ⟨bucket, hbucket, hlast, hversions, hmore⟩⟩ :=
    doCompact_reclaims hrewritten
  · refine h.of_grows hgrows (fun v hv ↦ ?_) hsame
    change v ∈ s.engine.doCompact.versions at hv
    rwa [versions, hmem, htables] at hv
  obtain ⟨⟨hempty, -, hfresh, -⟩, hkept⟩ := hsafe bucket hbucket
  replace hrewritten := hrewritten bucket hbucket
  obtain ⟨hlsm, hconfig⟩ := exec_config h.lsm .compact
  refine
    { lsm := hlsm
      active := (valueLogActive_of_config (hlsm.trans h.lsm.symm) hconfig).trans h.active
      resolves := fun v hv ↦ ?_
      reclaimed := fun gen hgen ↦ mem_append_right _ hgen }
  change v ∈ s.engine.doCompact.versions at hv
  change s.engine.doCompact.Resolves (s.reclaimed ++ s.engine.doCompact.reclaimedVlogIds) v
  have hstays : v ∈ s.engine.versions → s.engine.doCompact.Resolves s.reclaimed v := fun hold ↦
    (h.resolves v hold).of_grows (hlsm.trans h.lsm.symm) hgrows
  rw [hmore]
  rw [hversions] at hv
  rcases mem_append.mp hv with hleft | hmoved
  · refine (hstays (mem_versions_of_kept hleft)).reclaim fun gen hgen hin ↦ ?_
    rcases h.reclaimed_or hrewritten hin with hbefore | ⟨hne, w, hw, hinto⟩
    · exact hbefore
    · exact absurd hgen (hkept w (mem_inputEntries_of_merged hw) gen hinto hne v hleft)
  · intro hvlog
    rcases hrewritten.merged v hmoved hvlog with ⟨hinto, hsome⟩ | ⟨hin, hnone⟩
    · obtain ⟨_, _, _, hframe⟩ := hrewritten.frame
      have hmid : (s.engine.rewritten bucket).2.2.lsm = true := by rw [hframe]; exact h.lsm
      refine ⟨hlast.isSome_derefValue (hlsm.trans hmid.symm) hsome, fun gen hgen hin ↦ ?_⟩
      rw [← some.inj (hinto.symm.trans hgen)] at hin
      rcases (mem_append.mp hin).imp_right (h.reclaimed_or hrewritten) with
        hbefore | hbefore | ⟨-, w, hw, hwinto⟩
      · exact hfresh hbefore
      · exact hfresh hbefore
      -- No version points into the fresh generation before it holds anything.
      · exact h.image_ne_nil (mem_versions_of_merged hw) hwinto hempty
    · rw [hnone, append_nil]
      exact (hstays (mem_versions_of_merged hin)).reclaim (fun gen _ hgen ↦ h.reclaimed gen hgen)
        hvlog

lemma GcState.Intact.recovers (h : s.Intact)
    (hsafe : ∀ v ∈ s.engine.onDiskVersions, ∀ gen ∈ pointsInto v, gen ∉ s.reclaimed)
    (hevent : next s.engine event = e.recover) (hlsm : e.lsm = s.engine.lsm)
    (hconfig : e.config = s.engine.config) (hdisk : e.disk = s.engine.disk.crash)
    (hmanifest : e.manifestDisk = s.engine.manifestDisk.crash)
    (hfactory : e.factory = fun id ↦ (s.engine.factory id).crash)
    (hreclaimed : ∀ gen ∈ e.reclaimedVlogIds, gen ∈ s.reclaimed) : (s.step event).Intact := by
  have hstart : e.lsm = true := hlsm.trans h.lsm
  have hactive := (valueLogActive_of_config hlsm hconfig).trans h.active
  obtain ⟨hafter, -⟩ := recover_spec hstart
  refine GcState.intact_of_resolves ?_ ?_ (fun v hv ↦ ?_) fun gen hgen ↦ ?_
  · rw [hevent]
    exact hafter.lsm.trans hstart
  · rw [hevent]
    exact (valueLogActive_of_config hafter.lsm hafter.config).trans hactive
  · rw [hevent] at hv ⊢
    obtain ⟨hfound, hsome⟩ := recover_resolves hstart hactive hv
    have hrecords : e.walRecords = s.engine.crash.walRecords := by
      rw [walRecords, hdisk]
      rfl
    have hthreshold : e.valueThreshold = s.engine.crash.valueThreshold :=
      congrArg Config.valueThreshold hconfig
    rw [hrecords, hmanifest, Disk.image_crash,
      @loadTables_congr s.engine.crash e hlsm hthreshold hfactory] at hfound
    exact fun hvlog ↦ ⟨hsome hvlog, hsafe v (mem_append.mpr hfound)⟩
  · rw [hevent, hafter.reclaimed] at hgen
    exact hreclaimed gen hgen

lemma GcState.Intact.step (h : s.Intact) (hsafe : s.GcSafe event) : (s.step event).Intact := by
  match event with
  | .call (.write key value tombstone) => exact h.write hsafe.1 hsafe.2
  | .call .flush =>
    have hflush := s.engine.doFlush_spec h.lsm
    exact h.of_grows hflush.grows (fun v ↦ hflush.mem_versions.mp) hflush.reclaimed_eq
  | .call .compact => exact h.compact hsafe
  | .call .sync =>
    obtain ⟨ok, io, factory, d, hsync, hfactory, -⟩ := s.engine.sync_spec
    have hexec : s.engine.exec .sync = { s.engine with io := io, factory := factory, disk := d } :=
      congrArg Prod.snd hsync
    refine h.of_grows ?_ ?_ ?_
    all_goals rw [hexec]
    · exact fun id ↦ of_eq_or_sync (hfactory id)
    · exact fun v hv ↦ hv
  | .call (.watermark seq) =>
    exact h.of_grows (fun id ↦ refl _) (fun v hv ↦ hv) rfl
  | .recover => exact h.recovers hsafe rfl rfl rfl rfl rfl rfl h.reclaimed
  | .restart => exact h.recovers hsafe rfl rfl rfl rfl rfl rfl nofun

lemma GcState.Intact.start {c : Config} (hvlog : 0 < c.valueThreshold) (io : Script) :
    GcState.Intact ⟨c.engine io, []⟩ where
  lsm := rfl
  active := decide_eq_true ⟨hvlog, rfl⟩
  resolves := nofun
  reclaimed := nofun

lemma Resolves.freed (h : s.engine.Resolves s.reclaimed v) (hvlog : v.vlog = true) :
    ∃ value, s.engine.derefValue v.value = some value ∧
      s.freed.derefValue v.value = some value := by
  obtain ⟨hsome, hnot⟩ := h hvlog
  obtain ⟨value, hvalue⟩ := isSome_iff_exists.mp hsome
  refine ⟨value, hvalue, @derefValue_of_isPrefix s.engine s.freed rfl _ _ (fun ptr hdecode ↦ ?_)
    hvalue⟩
  have hgen : ptr.gen ∉ s.reclaimed := by
    refine hnot ptr.gen ?_
    rw [pointsInto, if_pos hvlog, hdecode]
    rfl
  have hkept : s.freed.factory ptr.gen = s.engine.factory ptr.gen := if_neg hgen
  simp only [hkept, prefix_rfl]

/-- In every run that compacts and recovers safely, no version points into a reclaimed generation,
and every pointer is still resolved when the factory has freed them. -/
theorem reclaimed_unreferenced {c : Config} (hvlog : 0 < c.valueThreshold) (io : Script)
    {events : List GcEvent} (hsafe : Meets GcState.step GcState.GcSafe ⟨c.engine io, []⟩ events) :
    let s := GuardedRun.run GcState.step ⟨c.engine io, []⟩ events
    (∀ gen ∈ s.reclaimed, ∀ v ∈ s.engine.versions, pointsInto v ≠ some gen) ∧
      ∀ v ∈ s.engine.versions, v.vlog = true → ∃ value,
        s.engine.derefValue v.value = some value ∧ s.freed.derefValue v.value = some value := by
  have h := hsafe.induction GcState.Intact (fun _ _ hintact ↦ hintact.step)
    (GcState.Intact.start hvlog io)
  intro s
  refine ⟨fun gen hgen v hv hinto ↦ ?_, fun v hv hpointer ↦ ?_⟩
  · exact (h.resolves v hv (vlog_of_pointsInto hinto)).2 gen hinto hgen
  · exact (h.resolves v hv).freed hpointer

def gcRun : List GcEvent :=
  [.call (.write [1] [10, 11] false), .call .flush, .call (.write [2] [20, 21] false),
    .call .flush, .call .compact, .call (.write [3] [30, 31] false),
    .call (.write [1] [40, 41] false), .call .flush, .call .compact, .recover]

theorem reclaimed_unreferenced_gcRun :
    let s := GuardedRun.run GcState.step
      ⟨Config.engine { compactionTrigger := 2, valueThreshold := 1 } Script.honest, []⟩ gcRun
    s.reclaimed ≠ [] ∧
      (∀ gen ∈ s.reclaimed, ∀ v ∈ s.engine.versions, pointsInto v ≠ some gen) ∧
      ∀ v ∈ s.engine.versions, v.vlog = true → ∃ value,
        s.engine.derefValue v.value = some value ∧ s.freed.derefValue v.value = some value :=
  ⟨by decide +kernel, reclaimed_unreferenced (by decide) Script.honest (by decide +kernel)⟩

def gcAfterRestart : List GcEvent :=
  [.call (.write [1] [10, 11] false), .call (.write [2] [20, 21] false), .call .sync, .call .flush,
    .restart, .call (.write [3] [3] false), .call (.write [4] [4] false), .call .flush,
    .call (.write [5] [50, 51] false), .call (.write [6] [60, 61] false), .call .flush,
    .call .compact]

/-- The restart switches the active generation and replays `[1]` and `[2]` into the memtable. The
compaction then merges the first and the third table and reclaims the old generation, into which
the second table, with the replayed copies, still points. -/
theorem reclaimed_referenced :
    let s := GuardedRun.run GcState.step
      ⟨Config.engine { compactionTrigger := 2, valueThreshold := 1 } Script.honest, []⟩
      gcAfterRestart
    ∃ gen ∈ s.reclaimed, ∃ v ∈ s.engine.versions, pointsInto v = some gen ∧
      (s.engine.derefValue v.value).isSome ∧ s.freed.derefValue v.value = none := by
  decide +kernel

end Lockstep.Storage.WalEngine
