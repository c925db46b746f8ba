import Lockstep.Library.GuardedRun
import Lockstep.Storage.Stream

/-!
# What a step of the engine can do

The parts of an awaited operation of `WalEngine`, as actions: a write (up to the insertion into the
memtable), a flush, a compaction, a sync, and a raise of the read watermark. An awaited put is a
write, with a flush and a compaction behind it when the thresholds say so (`commit_eq_run`).
-/

namespace Lockstep.Storage.WalEngine

open Library Script SSTableBuilder SSTableReader Disk.Grows List Function

/-! ### Actions -/

def write (e : WalEngine) (key : Key) (value : Value) (tombstone : Bool) : WalEngine :=
  let seq := e.lastSeq + 1
  let e := { e with lastSeq := seq }
  let (stored, isVlog, e) := e.separate value tombstone
  e.applyRecord { seq := seq, key := key, value := stored, tombstone := tombstone, vlog := isVlog }

variable (e : WalEngine) (key : Key) (value : Value) (tombstone : Bool)

lemma commit_eq : e.commit key value tombstone = (e.write key value tombstone).afterInsert := rfl

inductive Action where
  | write (key : Key) (value : Value) (tombstone : Bool)
  | flush
  | compact
  | sync
  | watermark (seq : Seq)
  deriving DecidableEq

def exec (e : WalEngine) : Action → WalEngine
  | .write key value tombstone => e.write key value tombstone
  | .flush => e.doFlush
  | .compact => e.doCompact
  | .sync => e.sync.2
  | .watermark seq => e.setReadWatermark seq

def thresholdActions (e : WalEngine) : List Action :=
  if 0 < e.flushThreshold ∧ e.flushThreshold < e.mem.flushable then
    if 2 ≤ e.doFlush.compactionTrigger ∧ e.doFlush.compactionTrigger ≤ e.doFlush.sstables.length
    then [.flush, .compact]
    else [.flush]
  else []

lemma afterInsert_eq_run : e.afterInsert = GuardedRun.run exec e e.thresholdActions := by
  rw [afterInsert, thresholdActions]
  by_cases hflush : 0 < e.flushThreshold ∧ e.flushThreshold < e.mem.flushable
  · rw [if_pos hflush, if_pos hflush]
    by_cases hcompact :
        2 ≤ e.doFlush.compactionTrigger ∧ e.doFlush.compactionTrigger ≤ e.doFlush.sstables.length
    · simp only [if_pos hcompact]
      rfl
    · simp only [if_neg hcompact]
      rfl
  · rw [if_neg hflush, if_neg hflush]
    rfl

lemma commit_eq_run : e.commit key value tombstone = GuardedRun.run exec e
      (.write key value tombstone :: (e.write key value tombstone).thresholdActions) := by
  rw [commit_eq, afterInsert_eq_run]
  rfl

inductive Event where
  | call (action : Action)
  | restart
  deriving DecidableEq

def step (e : WalEngine) : Event → WalEngine
  | .call action => e.exec action
  | .restart => e.restart

structure Config where
  flushThreshold : ℕ := 0
  compactionTrigger : ℕ := 0
  cdcRetainFrom : Seq := 0
  valueThreshold : ℕ := 0
  vlogBaseId : ℕ := kDefaultVlogBaseId
  resident : List UInt8 := []
  deriving DecidableEq

def Config.engine (c : Config) (io : Script) : WalEngine where
  flushThreshold := c.flushThreshold
  compactionTrigger := c.compactionTrigger
  cdcRetainFrom := c.cdcRetainFrom
  valueThreshold := c.valueThreshold
  vlogBaseId := c.vlogBaseId
  vlogGen := max kDefaultVlogBaseId c.vlogBaseId
  mem := { resident := c.resident }
  io := io

def config (e : WalEngine) : Config where
  flushThreshold := e.flushThreshold
  compactionTrigger := e.compactionTrigger
  cdcRetainFrom := e.cdcRetainFrom
  valueThreshold := e.valueThreshold
  vlogBaseId := e.vlogBaseId
  resident := e.mem.resident

/-! ### Appends and syncs -/

structure Settles (e : WalEngine) (before after : Disk) (ok : Bool) (io : Script) (d : Disk) :
    Prop where
  done : ok = true → d = after
  lost : ok = false → d = before
  honest : e.io = honest → ok = true ∧ io = honest

lemma settles (before after : Disk) : e.Settles before after e.io.next.1
    e.io.next.2 (if e.io.next.1 = true then after else before) where
  done := fun hok ↦ if_pos hok
  lost := fun hok ↦ if_neg (by simp [hok])
  honest := fun h ↦ by rw [h]; exact ⟨rfl, rfl⟩

variable (id : ℕ) (bytes : List UInt8)

lemma appendDisk_spec : ∃ ok io d, e.appendDisk id bytes =
        (ok, { e with io := io, factory := update e.factory id d }) ∧
      e.Settles (e.factory id) ((e.factory id).append bytes) ok io d := by
  refine ⟨_, _, _, ?_, e.settles _ _⟩
  rw [appendDisk, nextIo]
  cases e.io.next.1 <;> simp

lemma syncDisk_spec : ∃ ok io d, e.syncDisk id =
        (ok, { e with io := io, factory := update e.factory id d }) ∧
      e.Settles (e.factory id) (e.factory id).sync ok io d := by
  refine ⟨_, _, _, ?_, e.settles _ _⟩
  rw [syncDisk, nextIo]
  cases e.io.next.1 <;> simp

lemma writeTable_spec : ∃ ok io d, e.writeTable id bytes =
        (ok, { e with io := io, factory := update e.factory id d }) ∧
      (ok = true → d = ((e.factory id).append bytes).sync) ∧
      (ok = false → d = e.factory id ∨ d = (e.factory id).append bytes) ∧
      (e.io = honest → ok = true ∧ io = honest) := by
  obtain ⟨landed, io, d, happend, hlanded, hlost, hhonest⟩ := e.appendDisk_spec id bytes
  rw [writeTable, happend]
  cases landed with
  | false =>
    exact ⟨false, io, d, rfl, nofun, fun _ ↦ .inl (hlost rfl), fun h ↦ absurd (hhonest h).1 nofun⟩
  | true =>
    obtain ⟨synced, io', d', hsync, hsynced, hstaged, hhonest'⟩ :=
      syncDisk_spec { e with io := io, factory := update e.factory id d } id
    simp only [update_self, update_idem] at hsync hsynced hstaged
    rw [hlanded rfl] at hsynced hstaged
    refine ⟨synced, io', d', hsync, hsynced, fun hno ↦ .inr (hstaged hno), fun h ↦ ?_⟩
    exact hhonest' (hhonest h).2

lemma grows_update {factory : ℕ → Disk} {grown : ℕ} {d : Disk} (h : (factory grown).Grows d)
    (id : ℕ) : (factory id).Grows (update factory grown d id) := by
  by_cases hid : id = grown
  · subst hid
    rwa [update_self]
  · rw [update_of_ne hid]
    exact refl _

lemma grows_update_table (factory : ℕ → Disk) (table : ℕ) (bytes : List UInt8) (id : ℕ) :
    (factory id).Grows
      (update factory table ((factory table).append bytes).sync id) :=
  grows_update ((Disk.Grows.append _ _).trans (Disk.Grows.sync _)) id

/-! ### The manifest -/

/-- What logging a record leaves on the manifest disk. The header may go out before it. -/
inductive LoggedTo (before : Disk) (started : Bool) (record : ManifestRecord) :
    Bool → Disk → Prop
  | synced (front : List UInt8) (hfront : front = [] ∨ front = manifestHeader ∧ started = false) :
    LoggedTo before started record true ((before.append front).append record.encode).sync
  | staged (front : List UInt8) (hfront : front = [] ∨ front = manifestHeader ∧ started = false) :
    LoggedTo before started record false ((before.append front).append record.encode)
  | lost (front : List UInt8) (hfront : front = [] ∨ front = manifestHeader ∧ started = false) :
    LoggedTo before started record false (before.append front)

lemma writeManifestHeader_spec :
    ∃ io front, (front = [] ∨ front = manifestHeader ∧ e.manifestStarted = false) ∧
      e.writeManifestHeader =
        { e with io := io, manifestStarted := true, manifestDisk := e.manifestDisk.append front } ∧
      (e.io = honest → io = honest ∧
        (e.manifestStarted = false → front = manifestHeader)) := by
  have hnil : e.manifestDisk.append [] = e.manifestDisk := by
    rw [Disk.append, append_nil]
  rw [writeManifestHeader]
  cases hstarted : e.manifestStarted with
  | true =>
    refine ⟨e.io, [], .inl rfl, ?_, fun h ↦ ⟨h, nofun⟩⟩
    rw [if_pos rfl, hnil, ← hstarted]
  | false =>
    rw [appendManifest, nextIo]
    cases hok : e.io.next.1 with
    | true =>
      refine ⟨e.io.next.2, manifestHeader, .inr ⟨rfl, rfl⟩, ?_,
        fun h ↦ ⟨by rw [h]; rfl, fun _ ↦ rfl⟩⟩
      rfl
    | false =>
      refine ⟨e.io.next.2, [], .inl rfl, ?_, fun h ↦ absurd hok (by rw [h]; exact nofun)⟩
      simp [hnil]

lemma logManifest_spec (kind : ManifestKind) :
    ∃ ok io d, LoggedTo e.manifestDisk e.manifestStarted
        { entryNo := e.manifestTip + 1, kind := kind } ok d ∧
      e.logManifest kind =
        (ok, { e with
               io := io, manifestDisk := d, manifestStarted := true,
               manifestTip := if ok then e.manifestTip + 1 else e.manifestTip }) ∧
      (e.io = honest → ok = true ∧ io = honest) := by
  obtain ⟨io, front, hfront, hheader, hhonest⟩ :=
    writeManifestHeader_spec { e with manifestTip := e.manifestTip + 1 }
  rw [logManifest]
  simp only [hheader, appendManifest, nextIo]
  cases hlanded : io.next.1 with
  | false =>
    refine ⟨false, io.next.2, _, LoggedTo.lost front hfront, ?_, fun h ↦ ?_⟩
    · simp
    · rw [(hhonest h).1] at hlanded
      cases hlanded
  | true =>
    simp only [Bool.not_true, Bool.false_eq_true, if_false, if_true, syncManifest, nextIo]
    cases hsynced : io.next.2.next.1 with
    | false =>
      refine ⟨false, io.next.2.next.2, _, LoggedTo.staged front hfront, ?_, fun h ↦ ?_⟩
      · simp
      · rw [(hhonest h).1] at hsynced
        cases hsynced
    | true =>
      refine ⟨true, io.next.2.next.2, _, LoggedTo.synced front hfront, ?_, fun h ↦ ⟨rfl, ?_⟩⟩
      · simp
      · rw [(hhonest h).1]
        rfl

inductive Logs (allowed : ManifestKind → Prop) (e : WalEngine) : Bool → WalEngine → Prop
  | nil : Logs allowed e true e
  | log {mid : WalEngine} {kind : ManifestKind} {ok : Bool} {d : Disk} (io : Script)
    (hmid : Logs allowed e true mid) (hkind : allowed kind)
    (hlog : LoggedTo mid.manifestDisk mid.manifestStarted
      { entryNo := mid.manifestTip + 1, kind := kind } ok d) :
    Logs allowed e ok
      { mid with
        io := io, manifestDisk := d, manifestStarted := true,
        manifestTip := if ok then mid.manifestTip + 1 else mid.manifestTip }

namespace Logs

variable {allowed : ManifestKind → Prop} {e mid after : WalEngine} {ok : Bool}

lemma trans (hmid : Logs allowed e true mid) (h : Logs allowed mid ok after) :
    Logs allowed e ok after := by
  induction h with
  | nil => exact hmid
  | log io _ hkind hlog ih => exact log io ih hkind hlog

lemma frame (h : Logs allowed e ok after) :
    ∃ io d started tip, after =
      { e with io := io, manifestDisk := d, manifestStarted := started, manifestTip := tip } := by
  induction h with
  | nil => exact ⟨_, _, _, _, rfl⟩
  | log io _ _ _ ih =>
    obtain ⟨_, _, _, _, rfl⟩ := ih
    exact ⟨_, _, _, _, rfl⟩

end Logs

variable {allowed : ManifestKind → Prop}

lemma logManifest_logs {kind : ManifestKind}
    (hkind : allowed kind) : Logs allowed e (e.logManifest kind).1 (e.logManifest kind).2 := by
  obtain ⟨ok, io, d, hlog, heq, -⟩ := e.logManifest_spec kind
  rw [heq]
  exact Logs.log io Logs.nil hkind hlog

lemma logObsolete_logs {ids : List ℕ}
    (hkind : ∀ id ∈ ids, allowed (.obsolete id)) (e : WalEngine) :
    Logs allowed e (e.logObsolete ids).1 (e.logObsolete ids).2 := by
  induction ids generalizing e with
  | nil => exact Logs.nil
  | cons id ids ih =>
    have hfirst := e.logManifest_logs (hkind id mem_cons_self)
    rw [logObsolete]
    cases hok : (e.logManifest (.obsolete id)).1 with
    | false =>
      simpa [hok] using hfirst
    | true =>
      rw [hok] at hfirst
      simpa [hok] using hfirst.trans (ih (forall_mem_cons.mp hkind).2 _)

lemma logObsolete_honest (ids : List ℕ) {e : WalEngine} (h : e.io = honest) :
    (e.logObsolete ids).1 = true ∧ (e.logObsolete ids).2.io = honest := by
  induction ids generalizing e with
  | nil => exact ⟨rfl, h⟩
  | cons id ids ih =>
    obtain ⟨ok, io, d, -, heq, hhonest⟩ := e.logManifest_spec (.obsolete id)
    obtain ⟨rfl, rfl⟩ := hhonest h
    rw [logObsolete, heq]
    exact ih rfl

lemma logWalTrunc_spec {coveredMax : Seq} (hkind : allowed (.walTrunc coveredMax)) :
    ∃ ok after truncSeq, Logs allowed e ok after ∧
      e.logWalTrunc coveredMax = (ok, { after with walTruncSeq := truncSeq }) ∧
      (e.io = honest → ok = true) := by
  obtain ⟨ok, io, d, hlog, heq, hhonest⟩ := e.logManifest_spec (.walTrunc coveredMax)
  rw [logWalTrunc]
  split_ifs with htrunc
  · have hlogs := Logs.log io Logs.nil hkind hlog
    rw [heq]
    cases ok with
    | false => exact ⟨false, _, e.walTruncSeq, hlogs, rfl, fun h ↦ (hhonest h).1⟩
    | true => exact ⟨true, _, coveredMax, hlogs, rfl, fun _ ↦ rfl⟩
  · exact ⟨true, e, e.walTruncSeq, Logs.nil, rfl, fun _ ↦ rfl⟩

/-! ### Write -/

inductive WrittenTo (before : Disk) (started : Bool) (record : WalRecord) : Bool → Disk → Prop
  | landed (front : List UInt8) (hfront : front = [] ∨ front = walHeader ∧ started = false) :
    WrittenTo before started record true ((before.append front).append (encodeRecord record))
  | lost (front : List UInt8) (hfront : front = [] ∨ front = walHeader ∧ started = false) :
    WrittenTo before started record false (before.append front)

lemma writeWalHeader_spec : ∃ io front, (front = [] ∨ front = walHeader ∧ e.walStarted = false) ∧
      e.writeWalHeader =
        { e with io := io, walStarted := true, disk := e.disk.append front } ∧
      (e.io = honest → io = honest) := by
  have hnil : e.disk.append [] = e.disk := by rw [Disk.append, append_nil]
  rw [writeWalHeader]
  cases hstarted : e.walStarted with
  | true =>
    refine ⟨e.io, [], .inl rfl, ?_, id⟩
    rw [if_pos rfl, hnil, ← hstarted]
  | false =>
    rw [appendWal, nextIo]
    cases hok : e.io.next.1 with
    | true =>
      refine ⟨e.io.next.2, walHeader, .inr ⟨rfl, rfl⟩, ?_, fun h ↦ by rw [h]; rfl⟩
      rfl
    | false =>
      refine ⟨e.io.next.2, [], .inl rfl, ?_, fun h ↦ by rw [h]; rfl⟩
      simp [hnil]

lemma appendWal_spec : ∃ ok io d, e.appendWal bytes = (ok, { e with io := io, disk := d }) ∧
      e.Settles e.disk (e.disk.append bytes) ok io d := by
  refine ⟨_, _, _, ?_, e.settles _ _⟩
  rw [appendWal, nextIo]
  cases e.io.next.1 <;> rfl

lemma applyRecord_spec (record : WalRecord) :
    ∃ landed io d, WrittenTo e.disk e.walStarted record landed d ∧
      e.applyRecord record =
        { e with io := io, disk := d, walStarted := true, mem := e.mem.insert record } ∧
      (e.io = honest → landed = true ∧ io = honest) := by
  obtain ⟨io, front, hfront, hheader, hhonest⟩ := e.writeWalHeader_spec
  obtain ⟨landed, io', d, happend, hlanded, hlost, hhonest'⟩ := appendWal_spec
    { e with io := io, walStarted := true, disk := e.disk.append front } (encodeRecord record)
  refine ⟨landed, io', d, ?_, ?_, fun h ↦ hhonest' (hhonest h)⟩
  · cases landed with
    | true =>
      rw [hlanded rfl]
      exact WrittenTo.landed front hfront
    | false =>
      rw [hlost rfl]
      exact WrittenTo.lost front hfront
  · rw [applyRecord, hheader]
    simp only [happend]

def Separates (e : WalEngine) (value : Value) (tombstone : Bool) : Prop :=
  tombstone = false ∧ e.valueLogActive = true ∧ e.valueThreshold < value.length

instance (e : WalEngine) (value : Value) (tombstone : Bool) :
    Decidable (e.Separates value tombstone) := inferInstanceAs (Decidable (_ ∧ _))

/-- How a value is stored: in the record itself, or in the active value log with a pointer to it in
the record. -/
inductive Stored (e : WalEngine) (value : Value) (tombstone : Bool) :
    Value → Bool → (ℕ → Disk) → ℕ → Prop
  | inline : Stored e value tombstone value false e.factory e.vlogLen
  | separated (hlarge : e.Separates value tombstone) :
    Stored e value tombstone (encodeVlogRecord value e.vlogLen e.vlogGen).ptr.encode true
      (update e.factory e.vlogGen ((e.factory e.vlogGen).append
        (encodeVlogRecord value e.vlogLen e.vlogGen).bytes))
      (e.vlogLen + (encodeVlogRecord value e.vlogLen e.vlogGen).bytes.length)

lemma separate_spec :
    ∃ io stored isVlog factory len, Stored e value tombstone stored isVlog factory len ∧
      e.separate value tombstone =
        (stored, isVlog, { e with io := io, factory := factory, vlogLen := len }) ∧
      (e.io = honest → io = honest) := by
  rw [separate]
  split_ifs with hlarge
  · obtain ⟨ok, io, d, heq, hlanded, hlost, hhonest⟩ := e.appendDisk_spec e.vlogGen
      (encodeVlogRecord value e.vlogLen e.vlogGen).bytes
    simp only [heq]
    cases ok with
    | true =>
      obtain rfl := hlanded rfl
      exact ⟨io, _, _, _, _, Stored.separated ⟨by simpa using hlarge.1, hlarge.2⟩, rfl,
        fun h ↦ (hhonest h).2⟩
    | false =>
      obtain rfl := hlost rfl
      refine ⟨io, _, _, _, _, Stored.inline, ?_, fun h ↦ (hhonest h).2⟩
      rw [update_eq_self]
      rfl
  · exact ⟨e.io, _, _, _, _, Stored.inline, rfl, id⟩

lemma write_spec :
    ∃ stored isVlog factory len landed io d, Stored e value tombstone stored isVlog factory len ∧
      WrittenTo e.disk e.walStarted
        { seq := e.lastSeq + 1, key := key, value := stored, tombstone := tombstone,
          vlog := isVlog } landed d ∧
      e.write key value tombstone =
        { e with
          lastSeq := e.lastSeq + 1
          io := io
          factory := factory
          vlogLen := len
          disk := d
          walStarted := true
          mem := e.mem.insert
            { seq := e.lastSeq + 1, key := key, value := stored, tombstone := tombstone,
              vlog := isVlog } } ∧
      (e.io = honest → landed = true ∧ io = honest) := by
  obtain ⟨io, stored, isVlog, factory, len, hstored, hseparate, hhonest⟩ :=
    separate_spec { e with lastSeq := e.lastSeq + 1 } value tombstone
  obtain ⟨landed, io', d, hwritten, happly, hhonest'⟩ := applyRecord_spec
    { e with lastSeq := e.lastSeq + 1, io := io, factory := factory, vlogLen := len }
    { seq := e.lastSeq + 1, key := key, value := stored, tombstone := tombstone, vlog := isVlog }
  refine ⟨stored, isVlog, factory, len, landed, io', d, ?_, hwritten, ?_,
    fun h ↦ hhonest' (hhonest h)⟩
  · cases hstored with
    | inline => exact Stored.inline
    | separated hlarge => exact Stored.separated hlarge
  · rw [write]
    simp only [hseparate, happly]

lemma write_spec_of_off (hoff : e.valueLogActive = false) (key : Key)
    (value : Value) (tombstone : Bool) :
    ∃ landed io d,
      WrittenTo e.disk e.walStarted
        { seq := e.lastSeq + 1, key := key, value := value, tombstone := tombstone } landed d ∧
      e.write key value tombstone =
        { e with
          lastSeq := e.lastSeq + 1
          io := io
          disk := d
          walStarted := true
          mem := e.mem.insert
            { seq := e.lastSeq + 1, key := key, value := value, tombstone := tombstone } } ∧
      (e.io = honest → landed = true ∧ io = honest) := by
  obtain ⟨_, _, _, _, landed, io, d, hstored, hwritten, heq, hhonest⟩ :=
    e.write_spec key value tombstone
  cases hstored with
  | inline => exact ⟨landed, io, d, hwritten, heq, hhonest⟩
  | separated hlarge => cases hlarge.2.1.symm.trans hoff

lemma syncWal_spec : ∃ ok io d, e.syncWal = (ok, { e with io := io, disk := d }) ∧
      e.Settles e.disk e.disk.sync ok io d := by
  refine ⟨_, _, _, ?_, e.settles _ _⟩
  rw [syncWal, nextIo]
  cases e.io.next.1 <;> rfl

lemma Settles.eq_or_sync {e : WalEngine} {ok : Bool} {io : Script} {d : Disk} {gen : ℕ}
    (h : e.Settles (e.factory gen) (e.factory gen).sync ok io d) (id : ℕ) :
    update e.factory gen d id = e.factory id ∨ update e.factory gen d id = (e.factory id).sync := by
  by_cases hid : id = gen
  · subst hid
    rw [update_self]
    cases ok with
    | true => exact .inr (h.done rfl)
    | false => exact .inl (h.lost rfl)
  · exact .inl (update_of_ne hid _ _)

lemma sync_spec :
    ∃ ok io factory d, e.sync = (ok, { e with io := io, factory := factory, disk := d }) ∧
      (∀ id, factory id = e.factory id ∨ factory id = (e.factory id).sync) ∧
      (ok = true → d = e.disk.sync ∧
        (e.valueLogActive = true → factory e.vlogGen = (e.factory e.vlogGen).sync)) ∧
      (ok = false → e.io.Halts → d = e.disk) ∧
      (e.io = honest → ok = true ∧ io = honest) := by
  rw [sync]
  cases hactive : e.valueLogActive with
  | false =>
    obtain ⟨ok, io, d, heq, hsynced, hsame, hhonest⟩ := e.syncWal_spec
    exact ⟨ok, io, e.factory, d, by simpa using heq, fun _ ↦ .inl rfl,
      fun hok ↦ ⟨hsynced hok, nofun⟩, fun hno _ ↦ hsame hno, hhonest⟩
  | true =>
    obtain ⟨valueOk, io, d, hvalue, hsettles⟩ := e.syncDisk_spec e.vlogGen
    obtain ⟨walOk, io', d', hwal, hsynced, hsame, hhonest⟩ := syncWal_spec
      { e with io := io, factory := update e.factory e.vlogGen d }
    refine ⟨valueOk && walOk, io', update e.factory e.vlogGen d, d', ?_, hsettles.eq_or_sync,
      fun hok ↦ ?_, fun hno hhalts ↦ ?_, fun h ↦ ?_⟩
    · simp [hvalue, hwal]
    · obtain ⟨hvalueOk, hwalOk⟩ := Bool.and_eq_true_iff.mp hok
      refine ⟨hsynced hwalOk, fun _ ↦ ?_⟩
      rw [update_self]
      exact hsettles.done hvalueOk
    · refine hsame ?_
      -- A failed sync of the value log is followed by a failed sync of the log.
      cases valueOk with
      | true => simpa using hno
      | false =>
        have hfirst : e.io.next.1 = false := congrArg Prod.fst hvalue
        have hio : e.io.next.2 = io := by
          rw [syncDisk, nextIo, hfirst] at hvalue
          exact congrArg (fun r ↦ r.2.io) hvalue
        have hsecond : io.next.1 = walOk := congrArg Prod.fst hwal
        rw [← hsecond, ← hio]
        exact hhalts hfirst
    · obtain ⟨hvalueOk, hio⟩ := hsettles.honest h
      obtain ⟨hwalOk, hio'⟩ := hhonest hio
      exact ⟨by rw [hvalueOk, hwalOk]; rfl, hio'⟩

/-! ### Flush -/

def installKind (e : WalEngine) (entries : List SstEntry) : ManifestKind :=
  .install e.nextSstableId (build entries).bytes.length
    (build entries).minSeq (build entries).maxSeq

def afterInstall (e : WalEngine) (ok : Bool) (io : Script) (man : Disk) (entries : List SstEntry) :
    WalEngine :=
  { e with
    nextSstableId := e.nextSstableId + 1
    io := io
    factory := update e.factory e.nextSstableId
      ((e.factory e.nextSstableId).append (build entries).bytes).sync
    manifestDisk := man
    manifestStarted := true
    manifestTip := if ok then e.manifestTip + 1 else e.manifestTip }

def nextTable (e : WalEngine) (entries : List SstEntry) : SSTableReader :=
  adoptBuilt (build entries) e.nextSstableId

lemma installTable_spec (entries : List SstEntry) :
    (e.io ≠ honest ∧ ∃ io d, (e.factory e.nextSstableId).Grows d ∧
      e.installTable entries =
        (none, { e with
                 nextSstableId := e.nextSstableId + 1, io := io,
                 factory := update e.factory e.nextSstableId d })) ∨
    ∃ ok io man, LoggedTo e.manifestDisk e.manifestStarted
        { entryNo := e.manifestTip + 1, kind := e.installKind entries } ok man ∧
      e.installTable entries =
        (if ok then some (e.nextTable entries) else none, e.afterInstall ok io man entries) ∧
      (e.io = honest → ok = true ∧ io = honest) := by
  obtain ⟨written, io, d, hwrite, hwritten, hpart, hhonest⟩ :=
    writeTable_spec { e with nextSstableId := e.nextSstableId + 1 } e.nextSstableId
      (build entries).bytes
  rw [installTable]
  simp only [hwrite]
  cases written with
  | false =>
    refine .inl ⟨fun h ↦ absurd (hhonest h).1 nofun, io, d, ?_, rfl⟩
    rcases hpart rfl with rfl | rfl
    · exact refl _
    · exact append _ _
  | true =>
    obtain rfl := hwritten rfl
    obtain ⟨ok, io', man, hlog, heq, hhonest'⟩ := logManifest_spec
      { e with nextSstableId := e.nextSstableId + 1
               io := io
               factory := update e.factory e.nextSstableId
                 ((e.factory e.nextSstableId).append (build entries).bytes).sync }
      (e.installKind entries)
    refine .inr ⟨ok, io', man, hlog, ?_, fun h ↦ hhonest' (hhonest h).2⟩
    rw [installKind] at heq
    simp only [heq]
    cases ok <;> rfl

lemma installTable_logs {entries : List SstEntry} (hkind : allowed (e.installKind entries)) :
    ∃ io factory logged after installed, (∀ id, (e.factory id).Grows (factory id)) ∧
      Logs allowed { e with nextSstableId := e.nextSstableId + 1
                            io := io
                            factory := factory } logged after ∧
      e.installTable entries = (installed, after) ∧
      (e.io ≠ honest ∧ installed = none ∨
        logged = true ∧ installed = some (e.nextTable entries) ∧
          (e.io = honest → after.io = honest)) := by
  rcases e.installTable_spec entries with ⟨hno, io, d, hd, heq⟩ | ⟨ok, io, man, hlog, heq, hhonest⟩
  · exact ⟨io, _, true, _, none, grows_update hd, Logs.nil, heq, .inl ⟨hno, rfl⟩⟩
  have hlogs : Logs allowed _ ok (e.afterInstall ok io man entries) :=
    @Logs.log _ { e with nextSstableId := e.nextSstableId + 1
                         io := io
                         factory := update e.factory e.nextSstableId
                           ((e.factory e.nextSstableId).append
                             (build entries).bytes).sync } _ _ ok man io
      Logs.nil hkind hlog
  refine ⟨_, _, ok, _, _, grows_update_table e.factory _ _, hlogs, heq, ?_⟩
  cases ok with
  | false => exact .inl ⟨fun h ↦ absurd (hhonest h).1 nofun, rfl⟩
  | true => exact .inr ⟨rfl, rfl, fun h ↦ (hhonest h).2⟩

lemma syncActiveVlog_spec :
    ∃ ok io factory, e.syncActiveVlog = (ok, { e with io := io, factory := factory }) ∧
      (∀ id, factory id = e.factory id ∨ factory id = (e.factory id).sync) ∧
      (ok = true → e.valueLogActive = true → 0 < e.vlogLen →
        factory e.vlogGen = (e.factory e.vlogGen).sync) ∧
      (e.io = honest → ok = true ∧ io = honest) := by
  rw [syncActiveVlog]
  split_ifs with hactive
  · obtain ⟨ok, io, d, heq, hsettles⟩ := e.syncDisk_spec e.vlogGen
    refine ⟨ok, io, _, heq, hsettles.eq_or_sync, fun hok _ _ ↦ ?_, hsettles.honest⟩
    rw [update_self]
    exact hsettles.done hok
  · exact ⟨true, e.io, e.factory, rfl, fun id ↦ .inl rfl,
      fun _ hon hlen ↦ absurd ⟨hon, hlen⟩ hactive, fun h ↦ ⟨rfl, h⟩⟩

/-- What a flush can do: it stops before the manifest, or logs its install record and, when that
is synced, moves the versions into the new table. -/
inductive Flushed (e : WalEngine) : WalEngine → Prop
  | stopped (io : Script) (factory : ℕ → Disk) (next : ℕ) (hnext : e.nextSstableId ≤ next)
    (hgrows : ∀ id, (e.factory id).Grows (factory id))
    (hhonest : e.io = honest → e.mem.flushEntries = [] ∧ io = honest ∧
      next = e.nextSstableId ∧ ∀ id, factory id = e.factory id ∨ factory id = (e.factory id).sync) :
    Flushed e { e with io := io, factory := factory, nextSstableId := next }
  | failed (io io' : Script) (factory : ℕ → Disk) (man : Disk)
    (hfactory : ∀ id, factory id = e.factory id ∨ factory id = (e.factory id).sync)
    (hlog : LoggedTo e.manifestDisk e.manifestStarted
      { entryNo := e.manifestTip + 1, kind := e.installKind e.mem.flushEntries } false man)
    (hhonest : e.io ≠ honest) :
    Flushed e (afterInstall { e with io := io, factory := factory } false io' man
      e.mem.flushEntries)
  | done (io io' : Script) (factory : ℕ → Disk) (man : Disk)
    (hfactory : ∀ id, factory id = e.factory id ∨ factory id = (e.factory id).sync)
    (hvlog : e.valueLogActive = true → 0 < e.vlogLen →
      factory e.vlogGen = (e.factory e.vlogGen).sync)
    (hlog : LoggedTo e.manifestDisk e.manifestStarted
      { entryNo := e.manifestTip + 1, kind := e.installKind e.mem.flushEntries } true man)
    (hne : e.mem.flushEntries ≠ [])
    (hhonest : e.io = honest → io' = honest) :
    Flushed e { afterInstall { e with io := io, factory := factory } true io' man
        e.mem.flushEntries with
      sstables := e.sstables ++ [e.nextTable e.mem.flushEntries]
      mem := e.mem.eraseFlushable }

lemma doFlush_spec (hlsm : e.lsm = true) : Flushed e e.doFlush := by
  rw [doFlush]
  by_cases hidle : !e.lsm ∨ e.mem.entries = []
  · rw [if_pos hidle]
    refine Flushed.stopped e.io e.factory e.nextSstableId le_rfl (fun id ↦ refl _)
      fun h ↦ ⟨?_, h, rfl, fun id ↦ .inl rfl⟩
    rcases hidle with hno | hempty
    · rw [hlsm] at hno
      cases hno
    · rw [Memtable.flushEntries, hempty]
      rfl
  rw [if_neg hidle]
  obtain ⟨synced, io, factory, hsync, hfactory, hvlog, hhonest⟩ := e.syncActiveVlog_spec
  have hgrows : ∀ id, (e.factory id).Grows (factory id) :=
    fun id ↦ of_eq_or_sync (hfactory id)
  simp only [hsync]
  cases synced with
  | false =>
    exact Flushed.stopped io factory e.nextSstableId le_rfl hgrows
      fun h ↦ absurd (hhonest h).1 nofun
  | true =>
    by_cases hempty : e.mem.flushEntries = []
    · rw [if_pos hempty]
      exact Flushed.stopped io factory e.nextSstableId le_rfl hgrows
        fun h ↦ ⟨hempty, (hhonest h).2, rfl, hfactory⟩
    rw [if_neg hempty]
    rcases installTable_spec { e with io := io, factory := factory } e.mem.flushEntries with
      ⟨hno, io', d, hd, heq⟩ | ⟨ok, io', man, hlog, heq, hhonest'⟩
    · rw [heq]
      refine Flushed.stopped io' _ (e.nextSstableId + 1) (Nat.le_succ _) (fun id ↦ ?_)
        fun h ↦ absurd (hhonest h).2 hno
      by_cases hid : id = e.nextSstableId
      · subst hid
        rw [update_self]
        exact (hgrows _).trans hd
      · rw [update_of_ne hid]
        exact hgrows id
    · rw [heq]
      cases ok with
      | false =>
        exact Flushed.failed io io' factory man hfactory hlog
          fun h ↦ absurd (hhonest' (hhonest h).2).1 nofun
      | true =>
        exact Flushed.done io io' factory man hfactory (hvlog rfl) hlog hempty
          fun h ↦ (hhonest' (hhonest h).2).2

/-! ### Compaction -/

lemma obsoleteAndTruncate_spec
    {inputIds : List ℕ} {coveredMax : Seq} (hobsolete : ∀ id ∈ inputIds, allowed (.obsolete id))
    (htrunc : allowed (.walTrunc coveredMax)) (newReader : Option SSTableReader)
    (reclaimGens : List ℕ) :
    ∃ logged after truncSeq, Logs allowed e logged after ∧
      (e.io ≠ honest ∧ e.obsoleteAndTruncate inputIds newReader coveredMax reclaimGens =
          { after with walTruncSeq := truncSeq } ∨
        e.obsoleteAndTruncate inputIds newReader coveredMax reclaimGens =
          { after with
            walTruncSeq := truncSeq
            sstables := (e.sstables.filter fun t ↦ !inputIds.contains t.sstableId) ++
              newReader.toList
            obsoletedIds := e.obsoletedIds ++
              (e.sstables.filter fun t ↦ inputIds.contains t.sstableId).map
                sstableId
            reclaimedVlogIds := e.reclaimedVlogIds ++ reclaimGens }) := by
  have hfirst := logObsolete_logs hobsolete e
  rw [obsoleteAndTruncate]
  cases hok : (e.logObsolete inputIds).1 with
  | false =>
    rw [hok] at hfirst
    refine ⟨false, _, (e.logObsolete inputIds).2.walTruncSeq, hfirst, .inl ⟨fun h ↦ ?_, ?_⟩⟩
    · rw [(logObsolete_honest inputIds h).1] at hok
      cases hok
    · simp [hok]
  | true =>
    rw [hok] at hfirst
    obtain ⟨ok, after, truncSeq, hlogs, heq, hhonest⟩ :=
      logWalTrunc_spec (e.logObsolete inputIds).2 htrunc
    have hall := hfirst.trans hlogs
    simp only [hok, heq, Bool.not_true, Bool.false_eq_true, if_false]
    cases ok with
    | false =>
      exact ⟨false, after, truncSeq, hall,
        .inl ⟨fun h ↦ absurd (hhonest (logObsolete_honest inputIds h).2) nofun, rfl⟩⟩
    | true =>
      refine ⟨true, after, truncSeq, hall, .inr ?_⟩
      obtain ⟨_, _, _, _, hframe⟩ := hall.frame
      simp [hframe]

def mergedEntries (e : WalEngine) (bucket : ℕ) : List SstEntry :=
  compactMerge ((e.compactionInputs bucket).map collectEntries) e.gcWatermark

def rewritten (e : WalEngine) (bucket : ℕ) : List SstEntry × List ℕ × WalEngine :=
  if e.valueLogActive then e.rewriteVlogForCompaction (e.mergedEntries bucket)
  else (e.mergedEntries bucket, [], e)

def mergedTable (e : WalEngine) (entries : List SstEntry) : Option SSTableReader :=
  if entries = [] then none else some (e.nextTable entries)

def replaceTables (e : WalEngine) (merged : List SstEntry) (reclaimGens inputIds : List ℕ)
    (coveredMax : Seq) : WalEngine :=
  if merged = [] then e.obsoleteAndTruncate inputIds none coveredMax reclaimGens
  else
    match e.installTable merged with
    | (none, e) => e
    | (some reader, e) => e.obsoleteAndTruncate inputIds (some reader) coveredMax reclaimGens

lemma doCompact_cases : e.doCompact = e ∧ (e.lsm = true → ∀ bucket, e.chosenBucket = some bucket →
        (e.compactionInputs bucket).length < 2) ∨
      ∃ bucket, e.chosenBucket = some bucket ∧ 2 ≤ (e.compactionInputs bucket).length ∧
        e.doCompact = (e.rewritten bucket).2.2.replaceTables (e.rewritten bucket).1
          (e.rewritten bucket).2.1 ((e.compactionInputs bucket).map sstableId)
          ((e.compactionInputs bucket).foldl (fun most t ↦ max most t.maxSeq) kNoSeq) := by
  rw [doCompact]
  by_cases hidle : !e.lsm ∨ e.sstables.length < 2
  · refine .inl ⟨if_pos hidle, fun hlsm bucket _ ↦ ?_⟩
    rcases hidle with hno | hfew
    · rw [hlsm] at hno
      cases hno
    · exact (length_filter_le _ _).trans_lt hfew
  rw [if_neg hidle]
  cases hbucket : e.chosenBucket with
  | none => exact .inl ⟨rfl, nofun⟩
  | some bucket =>
    by_cases hfew : ((e.compactionInputs bucket).map sstableId).length < 2
    · rw [length_map] at hfew
      refine .inl ⟨if_pos (by rwa [length_map]), fun _ other hother ↦ ?_⟩
      rwa [← Option.some.inj hother]
    · refine .inr ⟨bucket, rfl, ?_, if_neg hfew⟩
      rw [length_map] at hfew
      omega

lemma rewriteEntry_frame (freshGen : ℕ) (r : VlogRewrite) (entry : SstEntry) :
    ∃ io factory, (rewriteEntry freshGen r entry).engine =
      { r.engine with io := io, factory := factory } := by
  rw [rewriteEntry]
  split_ifs
  · exact ⟨_, _, rfl⟩
  cases r.engine.derefValue entry.value with
  | none => exact ⟨_, _, rfl⟩
  | some value =>
    obtain ⟨ok, io, d, heq, -⟩ := r.engine.appendDisk_spec freshGen
      (encodeVlogRecord value r.freshLen freshGen).bytes
    simp only [heq]
    cases ok <;> exact ⟨_, _, rfl⟩

lemma foldl_rewriteEntry_frame (freshGen : ℕ) (entries : List SstEntry) (r : VlogRewrite) :
    ∃ io factory, (entries.foldl (rewriteEntry freshGen) r).engine =
      { r.engine with io := io, factory := factory } := by
  induction entries generalizing r with
  | nil => exact ⟨_, _, rfl⟩
  | cons entry entries ih =>
    obtain ⟨_, _, hfirst⟩ := rewriteEntry_frame freshGen r entry
    obtain ⟨io, factory, hrest⟩ := ih (rewriteEntry freshGen r entry)
    refine ⟨io, factory, ?_⟩
    rw [foldl_cons, hrest, hfirst]

lemma rewritten_frame (bucket : ℕ) : ∃ io factory counter, (e.rewritten bucket).2.2 =
      { e with io := io, factory := factory, vlogGenCounter := counter } := by
  rw [rewritten]
  split_ifs
  · rw [rewriteVlogForCompaction]
    split_ifs
    · exact ⟨_, _, _, rfl⟩
    obtain ⟨_, _, hfold⟩ := foldl_rewriteEntry_frame (e.vlogBaseId + (e.vlogGenCounter + 1))
      (e.mergedEntries bucket) { engine := { e with vlogGenCounter := e.vlogGenCounter + 1 } }
    obtain ⟨ok, io, d, hsync, -⟩ := syncDisk_spec ((e.mergedEntries bucket).foldl
      (rewriteEntry (e.vlogBaseId + (e.vlogGenCounter + 1)))
      { engine := { e with vlogGenCounter := e.vlogGenCounter + 1 } }).engine
      (e.vlogBaseId + (e.vlogGenCounter + 1))
    simp only [hsync]
    split_ifs <;> exact ⟨_, _, _, by rw [hfold]⟩
  · exact ⟨_, _, _, rfl⟩

lemma replaceTables_spec (hkind : ∀ kind, allowed kind) (merged : List SstEntry)
    (reclaimGens inputIds : List ℕ) (coveredMax : Seq) :
    ∃ io factory next logged after truncSeq, e.nextSstableId ≤ next ∧
      (∀ id, (e.factory id).Grows (factory id)) ∧
      Logs allowed { e with io := io, factory := factory, nextSstableId := next } logged after ∧
      (e.io ≠ honest ∧ e.replaceTables merged reclaimGens inputIds coveredMax =
          { after with walTruncSeq := truncSeq } ∨
        (merged ≠ [] → e.nextSstableId < next) ∧
        e.replaceTables merged reclaimGens inputIds coveredMax =
          { after with
            walTruncSeq := truncSeq
            sstables := (e.sstables.filter fun t ↦ !inputIds.contains t.sstableId) ++
              (e.mergedTable merged).toList
            obsoletedIds := e.obsoletedIds ++
              (e.sstables.filter fun t ↦ inputIds.contains t.sstableId).map
                sstableId
            reclaimedVlogIds := e.reclaimedVlogIds ++ reclaimGens }) := by
  rw [replaceTables, mergedTable]
  split_ifs with hempty
  · obtain ⟨logged, after, truncSeq, hlogs, hcases⟩ := e.obsoleteAndTruncate_spec
      (fun id _ ↦ hkind (.obsolete id)) (hkind (.walTrunc coveredMax)) none reclaimGens
    exact ⟨e.io, e.factory, e.nextSstableId, logged, after, truncSeq, le_rfl,
      fun id ↦ refl _, hlogs,
      hcases.imp_right fun h ↦ ⟨fun hne ↦ absurd hempty hne, h⟩⟩
  · obtain ⟨io, factory, logged, mid, installed, hgrows, hinstall, heq, hinstalled⟩ :=
      e.installTable_logs (hkind (e.installKind merged))
    rw [heq]
    rcases hinstalled with ⟨hno, rfl⟩ | ⟨rfl, rfl, hhonest⟩
    · exact ⟨io, factory, e.nextSstableId + 1, logged, mid, mid.walTruncSeq, Nat.le_succ _,
        hgrows, hinstall, .inl ⟨hno, rfl⟩⟩
    obtain ⟨logged, after, truncSeq, hlogs, hcases⟩ := mid.obsoleteAndTruncate_spec
      (fun id _ ↦ hkind (.obsolete id)) (hkind (.walTrunc coveredMax))
      (some (e.nextTable merged)) reclaimGens
    obtain ⟨_, _, _, _, hframe⟩ := hinstall.frame
    refine ⟨io, factory, e.nextSstableId + 1, logged, after, truncSeq, Nat.le_succ _,
      hgrows, hinstall.trans hlogs, hcases.imp (fun h ↦ ⟨fun hio ↦ h.1 (hhonest hio), h.2⟩)
        fun h ↦ ⟨fun _ ↦ Nat.lt_succ_self _, ?_⟩⟩
    refine h.trans ?_
    simp only [hframe]

lemma Flushed.config_eq {e after : WalEngine} (h : Flushed e after) :
    after.lsm = e.lsm ∧ after.config = e.config := by
  cases h with
  | stopped => exact ⟨rfl, rfl⟩
  | failed => exact ⟨rfl, rfl⟩
  | done => exact ⟨rfl, by simp [config, afterInstall]⟩

lemma write_config : (e.write key value tombstone).lsm = e.lsm ∧
      (e.write key value tombstone).config = e.config := by
  obtain ⟨_, _, _, _, _, _, _, -, -, heq, -⟩ := e.write_spec key value tombstone
  rw [heq]
  exact ⟨rfl, rfl⟩

lemma doCompact_config : e.doCompact.lsm = e.lsm ∧ e.doCompact.config = e.config := by
  rcases e.doCompact_cases with ⟨hidle, -⟩ | ⟨bucket, -, -, heq⟩
  · rw [hidle]
    exact ⟨rfl, rfl⟩
  obtain ⟨_, _, _, hframe⟩ := e.rewritten_frame bucket
  obtain ⟨io, factory, next, logged, after, truncSeq, -, -, hlogs, hcases⟩ :=
    replaceTables_spec (e.rewritten bucket).2.2 (fun _ ↦ trivial) (e.rewritten bucket).1
      (e.rewritten bucket).2.1 ((e.compactionInputs bucket).map sstableId)
      ((e.compactionInputs bucket).foldl (fun most t ↦ max most t.maxSeq) kNoSeq)
  obtain ⟨_, _, _, _, hafter⟩ := hlogs.frame
  rw [heq]
  rcases hcases with ⟨-, hsame⟩ | ⟨-, hnew⟩
  · rw [hsame, hafter, hframe]
    exact ⟨rfl, rfl⟩
  · rw [hnew, hafter, hframe]
    exact ⟨rfl, rfl⟩

lemma exec_config {e : WalEngine} (hlsm : e.lsm = true) (action : Action) :
    (e.exec action).lsm = true ∧ (e.exec action).config = e.config := by
  cases action with
  | write key value tombstone =>
    obtain ⟨h, hconfig⟩ := e.write_config key value tombstone
    exact ⟨h.trans hlsm, hconfig⟩
  | flush =>
    obtain ⟨h, hconfig⟩ := (e.doFlush_spec hlsm).config_eq
    exact ⟨h.trans hlsm, hconfig⟩
  | compact =>
    obtain ⟨h, hconfig⟩ := e.doCompact_config
    exact ⟨h.trans hlsm, hconfig⟩
  | sync =>
    obtain ⟨_, _, _, _, hsync, -⟩ := e.sync_spec
    rw [exec, hsync]
    exact ⟨hlsm, rfl⟩
  | watermark seq => exact ⟨hlsm, rfl⟩

end Lockstep.Storage.WalEngine
