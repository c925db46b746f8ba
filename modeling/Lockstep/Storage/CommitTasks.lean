import Lockstep.Library.TaskPool
import Lockstep.Storage.Pointers

/-!
# Commits that overlap

`commit` of `WalEngine` (`storage/WalEngine.hpp`) gives the write its number and spawns a task for
it. An operation on a disk completes at any time after it was started, in any order and with any
outcome (`completes`), and what it appends is on the disk from then on; the task goes on some time
after that (`resumes`).

The engine is one that does not compact.
-/

namespace Lockstep.Storage

open Library Disk.Grows SSTableBuilder WalEngine Function

structure Write where
  seq : Seq
  key : Key
  value : Value
  tombstone : Bool
  deriving DecidableEq

def Write.record (w : Write) (stored : Value) (isVlog : Bool) : WalRecord where
  seq := w.seq
  key := w.key
  value := stored
  tombstone := w.tombstone
  vlog := isVlog

/-- Where a commit coroutine stands. -/
inductive Place where
  | spawned
  | valueLog (gen : ℕ) (enc : VlogEncoded)
  | walHeader (record : WalRecord)
  | walRecord (record : WalRecord)
  | flushCalled
  | vlogSync (gen : ℕ)
  | tableAppend (id : ℕ) (entries : List SstEntry)
  | tableSync (id : ℕ) (entries : List SstEntry)
  | manifestHeader (id : ℕ) (entries : List SstEntry) (record : ManifestRecord)
  | manifestRecord (id : ℕ) (entries : List SstEntry) (record : ManifestRecord)
  | manifestSync (id : ℕ) (entries : List SstEntry)
  | flushReturned
  | finished
  deriving DecidableEq

namespace Place

def waitsForDisk : Place → Bool
  | spawned | flushCalled | flushReturned | finished => false
  | _ => true

def performed (e : WalEngine) : Place → WalEngine
  | valueLog gen enc =>
    { e with factory := update e.factory gen ((e.factory gen).append enc.bytes) }
  | walHeader _ => { e with disk := e.disk.append Storage.walHeader }
  | walRecord record => { e with disk := e.disk.append (encodeRecord record) }
  | vlogSync gen => { e with factory := update e.factory gen (e.factory gen).sync }
  | tableAppend id entries =>
    { e with factory := update e.factory id ((e.factory id).append (build entries).bytes) }
  | tableSync id _ => { e with factory := update e.factory id (e.factory id).sync }
  | manifestHeader _ _ _ => { e with manifestDisk := e.manifestDisk.append Storage.manifestHeader }
  | manifestRecord _ _ record => { e with manifestDisk := e.manifestDisk.append record.encode }
  | manifestSync _ _ => { e with manifestDisk := e.manifestDisk.sync }
  | spawned | flushCalled | flushReturned | finished => e

end Place

namespace WalEngine

def startLogging (e : WalEngine) (record : WalRecord) : WalEngine × Place :=
  if e.walStarted then (e, .walRecord record)
  else ({ e with walStarted := true }, .walHeader record)

def snapshot (e : WalEngine) : WalEngine × Place :=
  let entries := e.mem.flushEntries
  if entries = [] then (e, .flushReturned)
  else ({ e with nextSstableId := e.nextSstableId + 1 }, .tableAppend e.nextSstableId entries)

def startInstall (e : WalEngine) (id : ℕ) (entries : List SstEntry) : WalEngine × Place :=
  let built := build entries
  let e := { e with manifestTip := e.manifestTip + 1 }
  let record : ManifestRecord :=
    { entryNo := e.manifestTip, kind := .install id built.bytes.length built.minSeq built.maxSeq }
  if e.manifestStarted then (e, .manifestRecord id entries record)
  else ({ e with manifestStarted := true }, .manifestHeader id entries record)

def commitTask (e : WalEngine) (w : Write) (ok : Bool) : Place → WalEngine × Place
  | .spawned =>
    if e.Separates w.value w.tombstone then
      (e, .valueLog e.vlogGen (encodeVlogRecord w.value e.vlogLen e.vlogGen))
    else e.startLogging (w.record w.value false)
  | .valueLog _ enc =>
    if ok then
      startLogging { e with vlogLen := e.vlogLen + enc.bytes.length }
        (w.record enc.ptr.encode true)
    else e.startLogging (w.record w.value false)
  | .walHeader record => (e, .walRecord record)
  | .walRecord record =>
    -- The version is inserted whatever became of the append.
    let e := { e with mem := e.mem.insert record }
    if 0 < e.flushThreshold ∧ e.flushThreshold < e.mem.flushable then (e, .flushCalled)
    else (e, .finished)
  | .flushCalled =>
    if !e.lsm ∨ e.mem.entries = [] then (e, .flushReturned)
    else if e.valueLogActive ∧ 0 < e.vlogLen then (e, .vlogSync e.vlogGen)
    else e.snapshot
  | .vlogSync _ => if ok then e.snapshot else (e, .flushReturned)
  | .tableAppend id entries => if ok then (e, .tableSync id entries) else (e, .flushReturned)
  | .tableSync id entries => if ok then e.startInstall id entries else (e, .flushReturned)
  | .manifestHeader id entries record => (e, .manifestRecord id entries record)
  | .manifestRecord id entries _ =>
    if ok then (e, .manifestSync id entries)
    else ({ e with manifestTip := e.manifestTip - 1 }, .flushReturned)
  | .manifestSync id entries =>
    if ok then
      ({ e with
         sstables := e.sstables ++ [SSTableReader.adoptBuilt (build entries) id],
         mem := e.mem.eraseFlushable }, .flushReturned)
    else ({ e with manifestTip := e.manifestTip - 1 }, .flushReturned)
  | .flushReturned => (e, .finished)
  | .finished => (e, .finished)

end WalEngine

structure Position where
  place : Place := .spawned
  outcome : Option Bool := none
  deriving DecidableEq

def Position.ready (p : Position) : Option Bool :=
  if p.place.waitsForDisk then p.outcome else some true

/-- The suspended commits of an engine. -/
abbrev CommitPool := TaskPool WalEngine Write Position

inductive CommitEvent where
  | call (key : Key) (value : Value) (tombstone : Bool)
  | complete (task : ℕ) (ok : Bool)
  | resume (task : ℕ)
  deriving DecidableEq

namespace CommitPool

def completes (ok : Bool) (e : WalEngine) (_ : Write) (p : Position) : WalEngine × Position :=
  if p.place.waitsForDisk ∧ p.outcome = none then
    (if ok then p.place.performed e else e, { p with outcome := some ok })
  else (e, p)

def resumes (e : WalEngine) (w : Write) (p : Position) : WalEngine × Position :=
  match p.ready with
  | none => (e, p)
  | some ok => ((e.commitTask w ok p.place).1, { place := (e.commitTask w ok p.place).2 })

/-- One event: a commit starts, a disk operation ends, a coroutine goes on. -/
def step (pool : CommitPool) : CommitEvent → CommitPool
  | .call key value tombstone =>
    let seq := pool.state.lastSeq + 1
    pool.spawn { pool.state with lastSeq := seq }
      { seq := seq, key := key, value := value, tombstone := tombstone } {}
  | .complete task ok => pool.turn (completes ok) task
  | .resume task => pool.turn resumes task

end CommitPool

/-! ### What a turn can do -/

variable {place : Place}

namespace Place

def record : Place → Option WalRecord
  | walHeader record | walRecord record => some record
  | _ => none

def installing : Place → Option (ℕ × List SstEntry)
  | tableAppend id entries | tableSync id entries | manifestHeader id entries _
  | manifestRecord id entries _ | manifestSync id entries => some (id, entries)
  | _ => none

def appendsValue : Place → Bool
  | valueLog _ _ => true
  | _ => false

def inserted : Place → Bool
  | spawned | valueLog _ _ | walHeader _ | walRecord _ => false
  | _ => true

lemma of_record {r : WalRecord} (h : place.record = some r) :
    place.installing = none ∧ place.appendsValue = false ∧ place.inserted = false := by
  cases place with
  | walHeader | walRecord => exact ⟨rfl, rfl, rfl⟩
  | _ => cases h

lemma of_installing {table : ℕ × List SstEntry} (h : place.installing = some table) :
    place.record = none ∧ place.appendsValue = false ∧ place.inserted = true := by
  cases place with
  | tableAppend | tableSync | manifestHeader | manifestRecord | manifestSync =>
    exact ⟨rfl, rfl, rfl⟩
  | _ => cases h

end Place

variable (e : WalEngine) (w : Write) (ok : Bool)

namespace WalEngine

/-- What one step of a commit can do to the engine. -/
inductive Moves (e : WalEngine) (w : Write) (ok : Bool) : Place → WalEngine → Place → Prop
  | separates (hlarge : e.Separates w.value w.tombstone) :
    Moves e w ok .spawned e
      (.valueLog e.vlogGen (encodeVlogRecord w.value e.vlogLen e.vlogGen))
  | inline {place next : Place} (hplace : place.inserted = false)
    (hnext : next.record = some (w.record w.value false))
    (hfirst : place.record = none) (hlost : place.appendsValue = true → ok = false) :
    Moves e w ok place { e with walStarted := true } next
  | separated {gen : ℕ} {enc : VlogEncoded} {next : Place} (hok : ok = true)
    (hnext : next.record = some (w.record enc.ptr.encode true)) :
    Moves e w ok (.valueLog gen enc)
      { e with walStarted := true, vlogLen := e.vlogLen + enc.bytes.length } next
  | logs (record : WalRecord) : Moves e w ok (.walHeader record) e (.walRecord record)
  | inserts (record : WalRecord) {next : Place} (hnext : next = .flushCalled ∨ next = .finished) :
    Moves e w ok (.walRecord record) { e with mem := e.mem.insert record } next
  | syncs : Moves e w ok .flushCalled e (.vlogSync e.vlogGen)
  | snapshots {place : Place} (hplace : place = .flushCalled ∨ ∃ gen, place = .vlogSync gen) :
    Moves e w ok place { e with nextSstableId := e.nextSstableId + 1 }
      (.tableAppend e.nextSstableId e.mem.flushEntries)
  | proceeds {place next : Place} {table : ℕ × List SstEntry} (tip : ℕ) (started : Bool)
    (hplace : place.installing = some table) (hnext : next.installing = some table) :
    Moves e w ok place { e with manifestTip := tip, manifestStarted := started } next
  | installs (id : ℕ) (entries : List SstEntry) :
    Moves e w ok (.manifestSync id entries)
      { e with
        sstables := e.sstables ++ [SSTableReader.adoptBuilt (build entries) id],
        mem := e.mem.eraseFlushable } .flushReturned
  | returns {place next : Place} (tip : ℕ) (hplace : place.inserted = true)
    (hnext : next = .flushReturned ∨ next = .finished) :
    Moves e w ok place { e with manifestTip := tip } next

lemma startLogging_moves (record : WalRecord) :
    (e.startLogging record).1 = { e with walStarted := true } ∧
      (e.startLogging record).2.record = some record := by
  rw [startLogging]
  split_ifs with hstarted
  · refine ⟨?_, rfl⟩
    rw [← hstarted]
  · exact ⟨rfl, rfl⟩

lemma snapshot_moves (hplace : place = .flushCalled ∨ ∃ gen, place = .vlogSync gen) :
    Moves e w ok place e.snapshot.1 e.snapshot.2 := by
  have hinserted : place.inserted = true := by
    rcases hplace with rfl | ⟨gen, rfl⟩ <;> rfl
  rw [snapshot]
  split_ifs
  · exact Moves.returns e.manifestTip hinserted (.inl rfl)
  · exact Moves.snapshots hplace

lemma commitTask_moves (place : Place) :
    Moves e w ok place (e.commitTask w ok place).1 (e.commitTask w ok place).2 := by
  cases place with
  | spawned =>
    rw [commitTask]
    split_ifs with hlarge
    · exact Moves.separates hlarge
    · obtain ⟨hengine, hrecord⟩ := e.startLogging_moves (w.record w.value false)
      rw [hengine]
      exact Moves.inline rfl hrecord rfl nofun
  | valueLog gen enc =>
    rw [commitTask]
    split_ifs with hok
    · obtain ⟨hengine, hrecord⟩ := startLogging_moves
        { e with vlogLen := e.vlogLen + enc.bytes.length } (w.record enc.ptr.encode true)
      rw [hengine]
      exact Moves.separated hok hrecord
    · obtain ⟨hengine, hrecord⟩ := e.startLogging_moves (w.record w.value false)
      rw [hengine]
      exact Moves.inline rfl hrecord rfl fun _ ↦ Bool.eq_false_of_not_eq_true hok
  | walHeader record => exact Moves.logs record
  | walRecord record =>
    rw [commitTask]
    dsimp only
    split_ifs
    · exact Moves.inserts record (.inl rfl)
    · exact Moves.inserts record (.inr rfl)
  | flushCalled =>
    rw [commitTask]
    split_ifs
    · exact Moves.returns e.manifestTip rfl (.inl rfl)
    · exact Moves.syncs
    · exact e.snapshot_moves w ok (.inl rfl)
  | vlogSync gen =>
    rw [commitTask]
    split_ifs
    · exact e.snapshot_moves w ok (.inr ⟨gen, rfl⟩)
    · exact Moves.returns e.manifestTip rfl (.inl rfl)
  | tableAppend id entries =>
    rw [commitTask]
    split_ifs
    · exact Moves.proceeds e.manifestTip e.manifestStarted rfl rfl
    · exact Moves.returns e.manifestTip rfl (.inl rfl)
  | tableSync id entries =>
    rw [commitTask, startInstall]
    dsimp only
    split_ifs with hok hstarted
    · exact Moves.proceeds _ e.manifestStarted rfl rfl
    · exact Moves.proceeds _ true rfl rfl
    · exact Moves.returns e.manifestTip rfl (.inl rfl)
  | manifestHeader id entries record =>
    exact Moves.proceeds e.manifestTip e.manifestStarted rfl rfl
  | manifestRecord id entries record =>
    rw [commitTask]
    split_ifs
    · exact Moves.proceeds e.manifestTip e.manifestStarted rfl rfl
    · exact Moves.returns _ rfl (.inl rfl)
  | manifestSync id entries =>
    rw [commitTask]
    split_ifs
    · exact Moves.installs id entries
    · exact Moves.returns _ rfl (.inl rfl)
  | flushReturned => exact Moves.returns e.manifestTip rfl (.inr rfl)
  | finished => exact Moves.returns e.manifestTip rfl (.inr rfl)

end WalEngine

lemma Place.performed_spec (place : Place) : ∃ d factory man,
      place.performed e = { e with disk := d, factory := factory, manifestDisk := man } ∧
      (∀ id, (e.factory id).Grows (factory id)) ∧
      (∀ gen enc, place = .valueLog gen enc →
        (factory gen).image = (e.factory gen).image ++ enc.bytes) ∧
      ∀ id, (∀ enc, place ≠ .valueLog id enc) → (∀ entries, place ≠ .tableAppend id entries) →
        (factory id).image = (e.factory id).image := by
  have hsync : ∀ gen id, (update e.factory gen (e.factory gen).sync id).image =
      (e.factory id).image := by
    intro gen id
    by_cases hid : id = gen
    · subst hid
      rw [update_self, Disk.image_sync]
    · rw [update_of_ne hid]
  cases place with
  | valueLog gen enc =>
    refine ⟨_, _, _, rfl, grows_update (append _ _), ?_, fun id hne _ ↦ ?_⟩
    · rintro _ _ ⟨⟩
      rw [update_self, Disk.image_append]
    · rw [update_of_ne fun hid ↦ hne enc (by rw [hid])]
  | tableAppend table entries =>
    refine ⟨_, _, _, rfl, grows_update (append _ _), nofun,
      fun id _ hne ↦ ?_⟩
    rw [update_of_ne fun hid ↦ hne entries (by rw [hid])]
  | vlogSync gen =>
    exact ⟨_, _, _, rfl, grows_update (sync _), nofun,
      fun id _ _ ↦ hsync gen id⟩
  | tableSync table entries =>
    exact ⟨_, _, _, rfl, grows_update (sync _), nofun,
      fun id _ _ ↦ hsync table id⟩
  | walHeader | walRecord | manifestHeader | manifestRecord | manifestSync | spawned | flushCalled
  | flushReturned | finished =>
    exact ⟨_, _, _, rfl, fun id ↦ refl _, nofun, fun _ _ _ ↦ rfl⟩

namespace CommitPool

lemma completes_cases (e : WalEngine) (w : Write) (p : Position) :
    completes ok e w p = (e, p) ∨ p.outcome = none ∧ ∃ d factory man,
      completes ok e w p = ({ e with disk := d, factory := factory, manifestDisk := man },
        { p with outcome := some ok }) ∧
      (∀ id, (e.factory id).Grows (factory id)) ∧
      (∀ gen enc, p.place = .valueLog gen enc →
        (factory gen).image =
          (e.factory gen).image ++ if some ok = some true then enc.bytes else []) ∧
      ∀ id, (∀ enc, p.place ≠ .valueLog id enc) →
        (∀ entries, p.place ≠ .tableAppend id entries) →
        (factory id).image = (e.factory id).image := by
  rw [completes]
  by_cases hflight : p.place.waitsForDisk = true ∧ p.outcome = none
  · rw [if_pos hflight]
    refine .inr ⟨hflight.2, ?_⟩
    cases ok with
    | true =>
      obtain ⟨d, factory, man, hperformed, hgrows, hvalue, hother⟩ := p.place.performed_spec e
      exact ⟨d, factory, man, by rw [if_pos rfl, hperformed], hgrows, hvalue, hother⟩
    | false =>
      exact ⟨_, _, _, rfl, fun id ↦ refl _, fun gen enc _ ↦ (List.append_nil _).symm,
        fun _ _ _ ↦ rfl⟩
  · exact .inl (if_neg hflight)

lemma resumes_cases (p : Position) :
    resumes e w p = (e, p) ∨ ∃ ok after place, p.ready = some ok ∧
      resumes e w p = (after, { place := place }) ∧ Moves e w ok p.place after place := by
  rw [resumes]
  cases hready : p.ready with
  | none => exact .inl rfl
  | some ok => exact .inr ⟨ok, _, _, rfl, rfl, e.commitTask_moves w ok p.place⟩

end CommitPool

end Lockstep.Storage
