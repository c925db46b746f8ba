import Lockstep.Library.BinarySearch
import Lockstep.Library.RecordStream
import Lockstep.Storage.BloomFilter

/-!
# SSTables

The immutable sorted run of `storage/SSTable.hpp`. `SSTableBuilder.build` packs entries into blocks
and lays out data blocks, the sparse index, the Bloom filter and the footer, each block with its
CRC-32. `SSTableLoader.parse` validates an image and returns a reader over its decoded blocks.
-/

namespace Lockstep.Storage

open Library Library.ByteCodec

def kSstMagic : ℕ := 0x4C535354

def kSstFooterBytes : ℕ := 52

def kBlockCrcBytes : ℕ := 4

def kSstTargetBlockBytes : ℕ := 256

structure IndexRec where
  off : ℕ
  len : ℕ
  firstKey : Key
  deriving DecidableEq

structure SstBuildResult where
  bytes : List UInt8
  minSeq : Seq
  maxSeq : Seq
  blocks : List (List SstEntry)
  blockOffs : List ℕ
  blockLens : List ℕ
  bloom : BloomFilter
  deriving DecidableEq

/-! ### Building -/

namespace SSTableBuilder

def entrySize (e : SstEntry) : ℕ := 4 + 4 + 8 + 1 + e.key.length + e.value.length

def flags (e : SstEntry) : UInt8 := (if e.tombstone then 1 else 0) ||| (if e.vlog then 2 else 0)

def encodeEntry (e : SstEntry) : List UInt8 :=
  putU32 e.key.length ++ (putU32 e.value.length ++ (putU64 e.seq ++ ([flags e] ++
    (e.key ++ e.value))))

def takeBlock : ℕ → List SstEntry → List SstEntry × List SstEntry
  | _, [] => ([], [])
  | size, e :: entries =>
    if size ≠ 0 ∧ kSstTargetBlockBytes < size + entrySize e then ([], e :: entries)
    else
      let (block, rest) := takeBlock (size + entrySize e) entries
      (e :: block, rest)

def packBlocks : ℕ → List SstEntry → List (List SstEntry)
  | _, [] => []
  | 0, _ :: _ => []
  | fuel + 1, entries =>
    let (block, rest) := takeBlock 0 entries
    block :: packBlocks fuel rest

def blockPayload (block : List SstEntry) : List UInt8 := block.flatMap encodeEntry

def writeBlock (payload : List UInt8) : List UInt8 := payload ++ putU32 (Crc32.compute payload)

def framedLen (payload : List UInt8) : ℕ := (payload.length + kBlockCrcBytes) % 2 ^ 32

def frontKey (block : List SstEntry) : Key :=
  match block with
  | [] => []
  | e :: _ => e.key

def indexOf : ℕ → List (List SstEntry) → List IndexRec
  | _, [] => []
  | off, block :: blocks =>
    { off := off, len := framedLen (blockPayload block), firstKey := frontKey block } ::
      indexOf (off + (writeBlock (blockPayload block)).length) blocks

def encodeIndexRec (r : IndexRec) : List UInt8 :=
  putU64 r.off ++ (putU32 r.len ++ (putU32 r.firstKey.length ++ r.firstKey))

def addKey (keys : List Key) (e : SstEntry) : List Key :=
  if keys.getLast? = some e.key then keys else keys ++ [e.key]

def distinctKeys (entries : List SstEntry) : List Key := entries.foldl addKey []

def minSeq (entries : List SstEntry) : Seq :=
  entries.foldl (fun least e ↦ if least = kNoSeq ∨ e.seq < least then e.seq else least) kNoSeq

def maxSeq (entries : List SstEntry) : Seq :=
  entries.foldl (fun most e ↦ if most < e.seq then e.seq else most) kNoSeq

def footer (indexOff indexLen bloomOff bloomLen minSeq maxSeq : ℕ) : List UInt8 :=
  putU64 indexOff ++ (putU32 indexLen ++ (putU64 bloomOff ++ (putU32 bloomLen ++
    (putU64 minSeq ++ (putU64 maxSeq ++ (putU32 Format.kSstableVersion ++
      putU32 kSstMagic))))))

/-- Blocks, index, filter and footer of a sorted run. -/
def build (entries : List SstEntry) : SstBuildResult :=
  let blocks := packBlocks entries.length entries
  let data := blocks.flatMap fun block ↦ writeBlock (blockPayload block)
  let index := indexOf 0 blocks
  let indexPayload := index.flatMap encodeIndexRec
  let bloom := BloomFilter.build (distinctKeys entries)
  let indexed := data ++ writeBlock indexPayload
  let bloomed := indexed ++ writeBlock bloom.encode
  let foot := footer data.length (framedLen indexPayload) indexed.length (framedLen bloom.encode)
    (minSeq entries) (maxSeq entries)
  { bytes := bloomed ++ writeBlock foot
    minSeq := minSeq entries
    maxSeq := maxSeq entries
    blocks := blocks
    blockOffs := index.map IndexRec.off
    blockLens := index.map IndexRec.len
    bloom := bloom }

end SSTableBuilder

/-! ### Reading -/

/-- A table as the engine holds it, decoded. -/
structure SSTableReader where
  minSeq : Seq := kNoSeq
  maxSeq : Seq := kNoSeq
  sstableId : ℕ := 0
  index : List IndexRec := []
  blocks : List (List SstEntry) := []
  bloom : BloomFilter := {}
  deriving DecidableEq

namespace SSTableReader

def adoptBuilt (r : SstBuildResult) (id : ℕ) : SSTableReader where
  sstableId := id
  minSeq := r.minSeq
  maxSeq := r.maxSeq
  bloom := r.bloom
  blocks := r.blocks
  index := (r.blocks.zip (r.blockOffs.zip r.blockLens)).map fun (block, off, len) ↦
    { off := off, len := len, firstKey := SSTableBuilder.frontKey block }

def firstKeyAt (t : SSTableReader) (b : ℕ) : Key :=
  match t.index[b]? with
  | none => []
  | some r => r.firstKey

/-- The last block whose first key is at most `key`. The source's index is an `int`. -/
def seekBlock (t : SSTableReader) (key : Key) : Option ℕ :=
  BinarySearch.loop (fun b ↦ t.firstKeyAt b ≤ key) t.index.length 0 t.index.length none

def backUpEqual (t : SSTableReader) (key : Key) : ℕ → ℕ
  | 0 => 0
  | b + 1 => if t.firstKeyAt b = key then backUpEqual t key b else b + 1

def backUp (t : SSTableReader) (key : Key) (b : ℕ) : ℕ :=
  let lo := t.backUpEqual key b
  if 0 < lo ∧ t.firstKeyAt (lo - 1) < key then lo - 1 else lo

def blocksFrom (t : SSTableReader) (b : ℕ) : List (IndexRec × List SstEntry) :=
  (t.index.zip t.blocks).drop b

def hitSeq (hit : Option SstEntry) : Seq :=
  match hit with
  | none => kNoSeq
  | some e => e.seq

def scanBlockForKey (block : List SstEntry) (key : Key) (at_ : Seq) (hit : Option SstEntry) :
    Option SstEntry :=
  block.foldl (fun hit e ↦
    if e.key ≠ key then hit else if e.seq ≤ at_ ∧ hitSeq hit ≤ e.seq then some e else hit) hit

/-- The newest visible version, behind the Bloom filter. -/
def lookup (t : SSTableReader) (key : Key) (at_ : Seq) : Option SstEntry :=
  if !t.bloom.maybeContains key then none
  else
    match t.seekBlock key with
    | none => none
    | some blk =>
      ((t.blocksFrom (t.backUp key blk)).takeWhile fun b ↦ b.1.firstKey ≤ key).foldl
        (fun hit b ↦ scanBlockForKey b.2 key at_ hit) none

def scanStartBlock (t : SSTableReader) (lo : Key) : ℕ :=
  if lo = [] ∨ t.blocks = [] then 0
  else
    match t.seekBlock lo with
    | none => 0
    | some blk => t.backUp lo blk

def scanBlock (lo hi : Key) (at_ : Seq) (hiUnbounded : Bool) : List SstEntry → List SstEntry
  | [] => []
  | e :: block =>
    if at_ < e.seq then scanBlock lo hi at_ hiUnbounded block
    else if e.key < lo then scanBlock lo hi at_ hiUnbounded block
    else if !hiUnbounded ∧ ¬ e.key < hi then []
    else e :: scanBlock lo hi at_ hiUnbounded block

def scanInto (t : SSTableReader) (lo hi : Key) (at_ : Seq) (hiUnbounded : Bool) :
    List SstEntry :=
  let start :=
    if lo = [] then 0
    else
      match t.seekBlock lo with
      | none => 0
      | some blk => t.backUp lo blk
  ((t.blocksFrom start).takeWhile fun b ↦ hiUnbounded ∨ b.1.firstKey < hi).flatMap
    fun b ↦ scanBlock lo hi at_ hiUnbounded b.2

def collectEntries (t : SSTableReader) : List SstEntry := t.blocks.flatten

def entryCount (t : SSTableReader) : ℕ := (t.blocks.map List.length).sum

def firstKey (t : SSTableReader) : Option Key := t.collectEntries.head?.map Entry.key

def lastKey (t : SSTableReader) : Option Key := t.collectEntries.getLast?.map Entry.key

end SSTableReader

/-! ### Parsing -/

namespace SSTableLoader

open SSTableReader

def readBlock (image : List UInt8) (off len : ℕ) : Option (List UInt8) :=
  if len < kBlockCrcBytes then none
  else if image.length < (off + len) % 2 ^ 64 then none
  else
    let payload := slice image off (len - kBlockCrcBytes)
    if getU32 image (off + (len - kBlockCrcBytes)) ≠ Crc32.compute payload then none
    else some payload

def parseIndexRec (bytes : List UInt8) : Option (IndexRec × List UInt8) :=
  if bytes.length < 16 then none
  else
    let klen := getU32 bytes 12
    if bytes.length - 16 < klen then none
    else some ({ off := getU64 bytes 0, len := getU32 bytes 8, firstKey := slice bytes 16 klen },
      bytes.drop (16 + klen))

def parseIndex (payload : List UInt8) : Option (List IndexRec) :=
  RecordStream.decodeAll parseIndexRec payload.length payload

def decodeEntry (bytes : List UInt8) : Option (SstEntry × List UInt8) :=
  if bytes.length < 17 then none
  else
    let klen := getU32 bytes 0
    let vlen := getU32 bytes 4
    let flags := UInt8.ofNat (getAt 1 bytes 16)
    if bytes.length - 17 < klen + vlen then none
    else
      some ({ seq := getU64 bytes 8
              tombstone := flags &&& 1 ≠ 0
              vlog := flags &&& 2 ≠ 0
              key := slice bytes 17 klen
              value := slice bytes (17 + klen) vlen }, bytes.drop (17 + (klen + vlen)))

def decodeDataBlock (payload : List UInt8) : Option (List SstEntry) :=
  RecordStream.decodeAll decodeEntry payload.length payload

def readBlocks (image : List UInt8) : List IndexRec → Option (List (List SstEntry))
  | [] => some []
  | r :: index =>
    match readBlock image r.off r.len with
    | none => none
    | some payload =>
      match decodeDataBlock payload with
      | none => none
      | some block => (readBlocks image index).map (block :: ·)

/-- Reads a table back and checks every checksum. -/
def parse (image : List UInt8) (sstableId : ℕ) : Option SSTableReader :=
  if image.length < kSstFooterBytes then none
  else
    let foot := image.drop (image.length - kSstFooterBytes)
    if getU32 foot 44 ≠ kSstMagic then none
    else if getU32 foot 48 ≠ Crc32.compute (foot.take (kSstFooterBytes - 4)) then none
    else if getU32 foot 40 ≠ Format.kSstableVersion then none
    else
      match readBlock image (getU64 foot 0) (getU32 foot 8) with
      | none => none
      | some indexPayload =>
        match parseIndex indexPayload with
        | none => none
        | some index =>
          match readBlock image (getU64 foot 12) (getU32 foot 20) with
          | none => none
          | some bloomPayload =>
            match BloomFilter.decode bloomPayload with
            | none => none
            | some bloom =>
              match readBlocks image index with
              | none => none
              | some blocks =>
                some { minSeq := getU64 foot 24, maxSeq := getU64 foot 32, sstableId := sstableId,
                       index := index, blocks := blocks, bloom := bloom }

end SSTableLoader

end Lockstep.Storage
