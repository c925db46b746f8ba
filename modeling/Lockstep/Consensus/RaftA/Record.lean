import Lockstep.Library.FrameStream
import Lockstep.Consensus.RaftA.Message

/-!
# The bytes of the durable records

Each record kind has a body, `[kind][fields]`, and its frame on disk is
`[crc32(body)][length][body]` (`wire::frame_record`). A record whose fields have the widths of the
source's types (`DurableRecord.Fits`) is read back from its body; the reader is in
`Consensus.RaftA.Recovery`.
-/

namespace Lockstep.Consensus.RaftA

open Library ByteCodec
open List

def crc32Bit (crc : UInt32) : UInt32 :=
  (crc >>> 1) ^^^ (0xEDB88320 &&& (0 - (crc &&& 1)))

def crc32 (data : List UInt8) : UInt32 :=
  ~~~ data.foldl (fun crc byte ↦ crc32Bit^[8] (crc ^^^ byte.toUInt32)) 0xFFFFFFFF

def kMaxRecord : ℕ := 2 ^ 20

def putEntry (e : LogEntry) : List UInt8 := putLE 8 e.term ++ putStr e.value

namespace DurableRecord

def body : DurableRecord → List UInt8
  | recMeta term votedFor => 1 :: (putLE 8 term ++ putLE 8 votedFor)
  | recEntry index e => 2 :: (putLE 8 index ++ putEntry e)
  | recTrunc newLen => 3 :: putLE 8 newLen
  | recSnapshot lastIncludedIndex state =>
    4 :: (putLE 8 lastIncludedIndex ++ (putLE 4 state.length ++ state.flatMap putEntry))
  | recConfig chainIndex members =>
    5 :: (putLE 8 chainIndex ++ (putLE 4 members.length ++ members.flatMap (putLE 8)))
  | recSnapshotDelta fromBase toBase delta =>
    6 :: (putLE 8 fromBase ++
      (putLE 8 toBase ++ (putLE 4 delta.length ++ delta.flatMap putEntry)))

def bytes (r : DurableRecord) : List UInt8 := FrameStream.frame crc32 r.body

def EntryFits (e : LogEntry) : Prop := e.term < 2 ^ 64

def Fits : DurableRecord → Prop
  | recMeta term votedFor => term < 2 ^ 64 ∧ votedFor < 2 ^ 64
  | recEntry index e => index < 2 ^ 64 ∧ EntryFits e
  | recTrunc newLen => newLen < 2 ^ 64
  | recSnapshot lastIncludedIndex state => lastIncludedIndex < 2 ^ 64 ∧ ∀ e ∈ state, EntryFits e
  | recConfig chainIndex members => chainIndex < 2 ^ 64 ∧ ∀ id ∈ members, id < 2 ^ 64
  | recSnapshotDelta fromBase toBase delta =>
    fromBase < 2 ^ 64 ∧ toBase < 2 ^ 64 ∧ ∀ e ∈ delta, EntryFits e

instance (e : LogEntry) : Decidable (EntryFits e) := inferInstanceAs (Decidable (_ < _))

instance : ∀ r : DurableRecord, Decidable r.Fits
  | recMeta .. | recEntry .. => inferInstanceAs (Decidable (_ ∧ _))
  | recTrunc .. => inferInstanceAs (Decidable (_ < _))
  | recSnapshot .. | recConfig .. | recSnapshotDelta .. => inferInstanceAs (Decidable (_ ∧ _))

def Readable (r : DurableRecord) : Prop := r.body.length ≤ kMaxRecord

lemma body_length_pos (r : DurableRecord) : 0 < r.body.length := by
  cases r <;> simp [body]

end DurableRecord

lemma length_putEntry (e : LogEntry) : (putEntry e).length = 12 + e.value.length := by
  rw [putEntry, length_append, length_putLE, length_putStr]
  omega

lemma length_putEntry_le {e : LogEntry} {entries : List LogEntry} (hmem : e ∈ entries) :
    (putEntry e).length ≤ (entries.flatMap putEntry).length := by
  obtain ⟨before, after, rfl⟩ := append_of_mem hmem
  simp only [flatMap_append, flatMap_cons, length_append]
  omega

lemma length_le_length_flatMap_put {α : Type*} (put : α → List UInt8)
    (hput : ∀ a, 0 < (put a).length) (items : List α) :
    items.length ≤ (items.flatMap put).length := by
  induction items with
  | nil => exact Nat.zero_le _
  | cons a items ih =>
    have hpos := hput a
    rw [flatMap_cons, length_append, length_cons]
    omega

end Lockstep.Consensus.RaftA
