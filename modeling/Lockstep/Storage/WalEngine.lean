import Mathlib.Logic.Function.Basic
import Lockstep.Storage.CompactMerge
import Lockstep.Storage.Disk
import Lockstep.Storage.Manifest
import Lockstep.Storage.Memtable
import Lockstep.Storage.ValueLog
import Lockstep.Storage.WalRecord

/-!
# The storage engine

The write path of `WalEngine` (`storage/WalEngine.hpp`) and its recovery, one awaited operation
after another. A commit appends a record to the write-ahead log and inserts the version into the
memtable; past the threshold it flushes the memtable to an SSTable (`doFlush`) and, past the
trigger, merges a size class of SSTables (`doCompact`).
-/

namespace Lockstep.Storage

open Library Format SSTableReader

def kDefaultVlogBaseId : ℕ := 2 ^ 32

/-- The engine: its disks, what is in memory and the outcomes of the I/O to come. -/
structure WalEngine where
  -- What the caller set up.
  lsm : Bool := true
  flushThreshold : ℕ := 0
  compactionTrigger : ℕ := 0
  cdcRetainFrom : Seq := 0
  valueThreshold : ℕ := 0
  vlogBaseId : ℕ := kDefaultVlogBaseId
  -- The disks and the outcomes of the I/O to come.
  disk : Disk := {}
  manifestDisk : Disk := {}
  factory : ℕ → Disk := fun _ ↦ {}
  io : Script := Script.honest
  -- The engine's own state.
  mem : Memtable := {}
  lastSeq : Seq := kNoSeq
  walStarted : Bool := false
  sstables : List SSTableReader := []
  nextSstableId : ℕ := 0
  manifestTip : ℕ := 0
  manifestStarted : Bool := false
  readWatermark : Seq := kNoSeq
  walTruncSeq : Seq := kNoSeq
  obsoletedIds : List ℕ := []
  vlogGen : ℕ := kDefaultVlogBaseId
  vlogLen : ℕ := 0
  vlogGenCounter : ℕ := 0
  reclaimedVlogIds : List ℕ := []

namespace WalEngine

def nextIo (e : WalEngine) : Bool × WalEngine := (e.io.next.1, { e with io := e.io.next.2 })

def appendWal (e : WalEngine) (bytes : List UInt8) : Bool × WalEngine :=
  let (ok, e) := e.nextIo
  (ok, if ok then { e with disk := e.disk.append bytes } else e)

def syncWal (e : WalEngine) : Bool × WalEngine :=
  let (ok, e) := e.nextIo
  (ok, if ok then { e with disk := e.disk.sync } else e)

def appendManifest (e : WalEngine) (bytes : List UInt8) : Bool × WalEngine :=
  let (ok, e) := e.nextIo
  (ok, if ok then { e with manifestDisk := e.manifestDisk.append bytes } else e)

def syncManifest (e : WalEngine) : Bool × WalEngine :=
  let (ok, e) := e.nextIo
  (ok, if ok then { e with manifestDisk := e.manifestDisk.sync } else e)

def appendDisk (e : WalEngine) (id : ℕ) (bytes : List UInt8) : Bool × WalEngine :=
  let (ok, e) := e.nextIo
  (ok, if ok then
      { e with factory := Function.update e.factory id ((e.factory id).append bytes) }
    else e)

def syncDisk (e : WalEngine) (id : ℕ) : Bool × WalEngine :=
  let (ok, e) := e.nextIo
  (ok, if ok then { e with factory := Function.update e.factory id (e.factory id).sync } else e)

def valueLogActive (e : WalEngine) : Bool := 0 < e.valueThreshold ∧ e.lsm

def setReadWatermark (e : WalEngine) (watermark : Seq) : WalEngine :=
  { e with readWatermark := max e.readWatermark (min watermark e.lastSeq) }

def derefValue (e : WalEngine) (pointer : Value) : Option Value :=
  if !e.lsm then none
  else
    match VlogPtr.decode pointer with
    | none => none
    | some ptr =>
      if ptr.valueOff < kVlogRecordHeaderBytes then none
      else
        let recLen := kVlogRecordHeaderBytes + ptr.vlen + kVlogCrcBytes
        match (e.factory ptr.gen).read (ptr.valueOff - kVlogRecordHeaderBytes) recLen with
        | none => none
        | some window => vlogDeref window { ptr with valueOff := kVlogRecordHeaderBytes }

def writeManifestHeader (e : WalEngine) : WalEngine :=
  if e.manifestStarted then e
  else
    (appendManifest { e with manifestStarted := true }
      (putStreamHeader kManStreamMagic kManifestVersion)).2

def logManifest (e : WalEngine) (kind : ManifestKind) : Bool × WalEngine :=
  let e := { e with manifestTip := e.manifestTip + 1 }
  let record : ManifestRecord := { entryNo := e.manifestTip, kind := kind }
  let e := e.writeManifestHeader
  let (ok, e) := e.appendManifest record.encode
  if !ok then (false, { e with manifestTip := e.manifestTip - 1 })
  else
    let (ok, e) := e.syncManifest
    if !ok then (false, { e with manifestTip := e.manifestTip - 1 })
    else (true, e)

def writeTable (e : WalEngine) (id : ℕ) (bytes : List UInt8) : Bool × WalEngine :=
  let (ok, e) := e.appendDisk id bytes
  if !ok then (false, e) else e.syncDisk id

def installTable (e : WalEngine) (entries : List SstEntry) : Option SSTableReader × WalEngine :=
  let built := SSTableBuilder.build entries
  let id := e.nextSstableId
  let e := { e with nextSstableId := id + 1 }
  let (ok, e) := e.writeTable id built.bytes
  if !ok then (none, e)
  else
    let (ok, e) := e.logManifest (.install id built.bytes.length built.minSeq built.maxSeq)
    if !ok then (none, e) else (some (adoptBuilt built id), e)

def syncActiveVlog (e : WalEngine) : Bool × WalEngine :=
  if e.valueLogActive ∧ 0 < e.vlogLen then e.syncDisk e.vlogGen else (true, e)

/-- Writes the memtable as a table and installs it. -/
def doFlush (e : WalEngine) : WalEngine :=
  if !e.lsm ∨ e.mem.entries = [] then e
  else
    let (ok, e) := e.syncActiveVlog
    if !ok then e
    else
      let entries := e.mem.flushEntries
      if entries = [] then e
      else
        match e.installTable entries with
        | (none, e) => e
        | (some reader, e) =>
          { e with sstables := e.sstables ++ [reader], mem := e.mem.eraseFlushable }

/-! ### Compaction -/

def topicKeys : Key := [0x21, 0x74]

def isTopicSegment (t : SSTableReader) : Bool :=
  match t.firstKey, t.lastKey with
  | some lo, some hi => topicKeys.isPrefixOf lo && topicKeys.isPrefixOf hi
  | _, _ => false

def bucketOf (t : SSTableReader) : ℕ := Nat.log2 t.entryCount

def chosenBucket (e : WalEngine) : Option ℕ :=
  let buckets := (e.sstables.filter fun t ↦ !isTopicSegment t).map bucketOf
  (buckets.filter fun b ↦ e.compactionTrigger ≤ buckets.count b).min?

def compactionInputs (e : WalEngine) (bucket : ℕ) : List SSTableReader :=
  e.sstables.filter fun t ↦ !isTopicSegment t ∧ bucketOf t = bucket

def gcWatermark (e : WalEngine) : Seq :=
  if 0 < e.cdcRetainFrom ∧ e.cdcRetainFrom ≤ e.readWatermark then e.cdcRetainFrom - 1
  else e.readWatermark

def vlogGens (entries : List SstEntry) : List ℕ :=
  ((entries.filter Entry.vlog).filterMap fun e ↦ (VlogPtr.decode e.value).map VlogPtr.gen).eraseDups

/-- Where the rewrite of the value log stands: the length of the fresh log, whether an old pointer
had to stay, and the entries so far. -/
structure VlogRewrite where
  engine : WalEngine
  freshLen : ℕ := 0
  keptAnOldGen : Bool := false
  merged : List SstEntry := []

def rewriteEntry (freshGen : ℕ) (r : VlogRewrite) (entry : SstEntry) : VlogRewrite :=
  if !entry.vlog then { r with merged := r.merged ++ [entry] }
  else
    match r.engine.derefValue entry.value with
    | none => { r with keptAnOldGen := true, merged := r.merged ++ [entry] }
    | some value =>
      let enc := encodeVlogRecord value r.freshLen freshGen
      let (ok, engine) := r.engine.appendDisk freshGen enc.bytes
      if !ok then
        { r with engine := engine, keptAnOldGen := true, merged := r.merged ++ [entry] }
      else
        { r with
          engine := engine, freshLen := r.freshLen + enc.bytes.length,
          merged := r.merged ++ [{ entry with value := enc.ptr.encode }] }

def rewriteVlogForCompaction (e : WalEngine) (merged : List SstEntry) :
    List SstEntry × List ℕ × WalEngine :=
  if !merged.any Entry.vlog then (merged, [], e)
  else
    let oldGens := vlogGens merged
    let freshGen := e.vlogBaseId + (e.vlogGenCounter + 1)
    let r := merged.foldl (rewriteEntry freshGen)
      { engine := { e with vlogGenCounter := e.vlogGenCounter + 1 } }
    let (ok, e) := r.engine.syncDisk freshGen
    if !ok ∨ r.keptAnOldGen then (r.merged, [], e)
    else (r.merged, oldGens.filter fun gen ↦ gen ≠ e.vlogGen, e)

def logObsolete (e : WalEngine) : List ℕ → Bool × WalEngine
  | [] => (true, e)
  | id :: ids =>
    let (ok, e) := e.logManifest (.obsolete id)
    if !ok then (false, e) else e.logObsolete ids

def logWalTrunc (e : WalEngine) (coveredMax : Seq) : Bool × WalEngine :=
  if e.walTruncSeq < coveredMax ∧ !e.mem.anyResident then
    let (ok, e) := e.logManifest (.walTrunc coveredMax)
    if !ok then (false, e) else (true, { e with walTruncSeq := coveredMax })
  else (true, e)

def obsoleteAndTruncate (e : WalEngine) (inputIds : List ℕ) (newReader : Option SSTableReader)
    (coveredMax : Seq) (reclaimGens : List ℕ) : WalEngine :=
  let (ok, e) := e.logObsolete inputIds
  if !ok then e
  else
    let (ok, e) := e.logWalTrunc coveredMax
    if !ok then e
    else
      { e with
        sstables := (e.sstables.filter fun t ↦ !inputIds.contains t.sstableId) ++ newReader.toList
        obsoletedIds := e.obsoletedIds ++
          (e.sstables.filter fun t ↦ inputIds.contains t.sstableId).map sstableId
        reclaimedVlogIds := e.reclaimedVlogIds ++ reclaimGens }

/-- Merges one size class of tables into one. -/
def doCompact (e : WalEngine) : WalEngine :=
  if !e.lsm ∨ e.sstables.length < 2 then e
  else
    match e.chosenBucket with
    | none => e
    | some bucket =>
      let inputs := e.compactionInputs bucket
      let inputIds := inputs.map sstableId
      let coveredMax := inputs.foldl (fun most t ↦ max most t.maxSeq) kNoSeq
      if inputIds.length < 2 then e
      else
        let merged := compactMerge (inputs.map collectEntries) e.gcWatermark
        let (merged, reclaimGens, e) :=
          if e.valueLogActive then e.rewriteVlogForCompaction merged else (merged, [], e)
        if merged = [] then e.obsoleteAndTruncate inputIds none coveredMax reclaimGens
        else
          match e.installTable merged with
          | (none, e) => e
          | (some reader, e) =>
            e.obsoleteAndTruncate inputIds (some reader) coveredMax reclaimGens

def separate (e : WalEngine) (value : Value) (tombstone : Bool) : Value × Bool × WalEngine :=
  if !tombstone ∧ e.valueLogActive ∧ e.valueThreshold < value.length then
    let enc := encodeVlogRecord value e.vlogLen e.vlogGen
    let (ok, e) := e.appendDisk e.vlogGen enc.bytes
    if ok then (enc.ptr.encode, true, { e with vlogLen := e.vlogLen + enc.bytes.length })
    else (value, false, e)
  else (value, false, e)

def writeWalHeader (e : WalEngine) : WalEngine :=
  if e.walStarted then e
  else
    (appendWal { e with walStarted := true }
      (putStreamHeader kWalStreamMagic kWalStreamVersion)).2

def applyRecord (e : WalEngine) (record : WalRecord) : WalEngine :=
  let e := e.writeWalHeader
  let (_, e) := e.appendWal (encodeRecord record)
  { e with mem := e.mem.insert record }

def afterInsert (e : WalEngine) : WalEngine :=
  if 0 < e.flushThreshold ∧ e.flushThreshold < e.mem.flushable then
    let e := e.doFlush
    if 2 ≤ e.compactionTrigger ∧ e.compactionTrigger ≤ e.sstables.length then e.doCompact
    else e
  else e

/-- An awaited put or delete. -/
def commit (e : WalEngine) (key : Key) (value : Value) (tombstone : Bool) : WalEngine :=
  let seq := e.lastSeq + 1
  let e := { e with lastSeq := seq }
  let (stored, isVlog, e) := e.separate value tombstone
  (e.applyRecord { seq := seq, key := key, value := stored, tombstone := tombstone,
                   vlog := isVlog }).afterInsert

def put (e : WalEngine) (key : Key) (value : Value) : WalEngine := e.commit key value false

def del (e : WalEngine) (key : Key) : WalEngine := e.commit key [] true

def sync (e : WalEngine) : Bool × WalEngine :=
  if !e.valueLogActive then e.syncWal
  else
    let (valueOk, e) := e.syncDisk e.vlogGen
    let (walOk, e) := e.syncWal
    (valueOk && walOk, e)

/-! ### Recovery -/

structure LiveRec where
  sstableId : ℕ
  sstLen : ℕ
  maxSeq : Seq
  deriving DecidableEq

structure ManifestFold where
  live : List LiveRec := []
  nextSstableId : ℕ := 0
  walTruncSeq : Seq := kNoSeq
  obsoletedIds : List ℕ := []
  manifestTip : ℕ := 0
  deriving DecidableEq

def expectEntry : ℕ := 1

/-- The live tables after the records of the manifest. -/
def foldManifest (f : ManifestFold) (r : ManifestRecord) : Option ManifestFold :=
  if r.entryNo ≠ expectEntry then none
  else
    let f := { f with manifestTip := r.entryNo }
    match r.kind with
    | .install id len _ maxSeq =>
      some { f with
             live := f.live ++ [{ sstableId := id, sstLen := len, maxSeq := maxSeq }],
             nextSstableId := max f.nextSstableId (id + 1) }
    | .obsolete id =>
      some { f with
        live := f.live.filter fun lr ↦ lr.sstableId ≠ id
        obsoletedIds := f.obsoletedIds ++
          (f.live.filter fun lr ↦ lr.sstableId = id).map LiveRec.sstableId }
    | .walTrunc seq => some { f with walTruncSeq := max f.walTruncSeq seq }

def streamBody (image : List UInt8) (magic version : ℕ) : List UInt8 :=
  if kStreamHeaderBytes ≤ image.length ∧ getU32 image 0 = magic then
    if !checkStreamHeader image magic version then []
    else image.drop kStreamHeaderBytes
  else image

def foldManifestImage (image : List UInt8) : ManifestFold :=
  let body := streamBody image kManStreamMagic kManifestVersion
  RecordStream.scan decodeManifest foldManifest body.length body {}

def loadTable (e : WalEngine) (lr : LiveRec) : Option SSTableReader :=
  if lr.sstLen < kSstFooterBytes then none
  else
    match (e.factory lr.sstableId).read 0 lr.sstLen with
    | none => none
    | some image => SSTableLoader.parse image lr.sstableId

def vlogPointersResolve (e : WalEngine) (t : SSTableReader) : Bool :=
  t.collectEntries.all fun entry ↦ !entry.vlog || (e.derefValue entry.value).isSome

def loadTables (e : WalEngine) : List LiveRec → List SSTableReader
  | [] => []
  | lr :: live =>
    match e.loadTable lr with
    | none => []
    | some t =>
      if e.valueLogActive && !e.vlogPointersResolve t then [] else t :: e.loadTables live

structure Replay where
  mem : Memtable
  lastSeq : Seq
  expect : Seq
  deriving DecidableEq

def replayRecord (e : WalEngine) (r : Replay) (record : WalRecord) : Option Replay :=
  if record.seq ≤ e.walTruncSeq then some r
  else if record.seq ≠ r.expect then none
  else if record.vlog ∧ (e.derefValue record.value).isNone then none
  else
    some { mem := r.mem.insert record, lastSeq := max r.lastSeq record.seq, expect := r.expect + 1 }

def replayImage (e : WalEngine) (image : List UInt8) : Replay :=
  let body := streamBody image kWalStreamMagic kWalStreamVersion
  RecordStream.scan tryDecode e.replayRecord body.length body
    { mem := e.mem.clear, lastSeq := e.lastSeq, expect := e.walTruncSeq + 1 }

def freshWriteGen (e : WalEngine) : WalEngine :=
  if e.valueLogActive then
    { e with
      vlogGenCounter := e.vlogGenCounter + 1,
      vlogGen := e.vlogBaseId + (e.vlogGenCounter + 1), vlogLen := 0 }
  else e

def recoverManifest (e : WalEngine) (manifestLen : ℕ) : WalEngine :=
  let image := if manifestLen = 0 ∨ !e.lsm then none else e.manifestDisk.read 0 manifestLen
  let f := (image.map foldManifestImage).getD {}
  let e := { e with
    manifestStarted := if image.isSome then true else e.manifestStarted
    nextSstableId := f.nextSstableId
    manifestTip := f.manifestTip
    obsoletedIds := f.obsoletedIds }
  let tables := e.loadTables f.live
  let loadedMax := tables.foldl (fun most t ↦ max most t.maxSeq) kNoSeq
  { e with sstables := tables, lastSeq := loadedMax, walTruncSeq := min f.walTruncSeq loadedMax }

/-- Recovery: the manifest, its tables, then the log. -/
def recoverLsm (e : WalEngine) (walLen manifestLen : ℕ) : WalEngine :=
  let e := ({ e with mem := e.mem.clear }.freshWriteGen).recoverManifest manifestLen
  match e.disk.read 0 walLen with
  | none => e
  | some image =>
    let r := e.replayImage image
    { e with mem := r.mem, lastSeq := r.lastSeq, walStarted := !image.isEmpty }

def crash (e : WalEngine) : WalEngine :=
  { lsm := e.lsm
    flushThreshold := e.flushThreshold
    compactionTrigger := e.compactionTrigger
    cdcRetainFrom := e.cdcRetainFrom
    valueThreshold := e.valueThreshold
    vlogBaseId := e.vlogBaseId
    vlogGen := max kDefaultVlogBaseId e.vlogBaseId
    disk := e.disk.crash
    manifestDisk := e.manifestDisk.crash
    factory := fun id ↦ (e.factory id).crash
    io := e.io
    mem := { resident := e.mem.resident } }

def restart (e : WalEngine) : WalEngine :=
  let e := e.crash
  e.recoverLsm e.disk.image.length e.manifestDisk.image.length

end WalEngine

end Lockstep.Storage
