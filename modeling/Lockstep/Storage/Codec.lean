import Mathlib.Data.List.Lex
import Mathlib.Order.Lattice
import Mathlib.Logic.Function.Iterate
import Lockstep.Library.ByteCodec

/-!
# Keys, values and the shared codec

The types of the storage seam (`storage/Engine.hpp`) and the serialisation helpers every on-disk
format shares (`storage/Codec.hpp`, `storage/Format.hpp`): fixed-width little-endian numbers, the
CRC-32 and the stream header.
-/

/-- Bytes are ordered as unsigned numbers, as `std::string` compares them. -/
instance byteLinearOrder : LinearOrder UInt8 where
  le_refl := UInt8.le_refl
  le_trans _ _ _ := UInt8.le_trans
  lt_iff_le_not_ge first second := by
    rw [UInt8.le_iff_toNat_le, UInt8.le_iff_toNat_le, UInt8.lt_iff_toNat_lt]
    omega
  le_antisymm _ _ := UInt8.le_antisymm
  le_total := UInt8.le_total
  toDecidableLE := inferInstance
  toDecidableLT := inferInstance

namespace Lockstep.Storage

open Library.ByteCodec
open List

abbrev Key := List UInt8

abbrev Value := List UInt8

abbrev Seq := ℕ

def kNoSeq : Seq := 0

/-- A version of a key. -/
structure Entry where
  seq : Seq := kNoSeq
  key : Key
  value : Value
  tombstone : Bool := false
  vlog : Bool := false
  deriving DecidableEq

abbrev WalRecord := Entry

abbrev SstEntry := Entry

namespace Entry

def Precedes (first second : Entry) : Prop :=
  first.key < second.key ∨ first.key = second.key ∧ first.seq ≤ second.seq

instance (first second : Entry) : Decidable (first.Precedes second) :=
  inferInstanceAs (Decidable (_ ∨ _))

def VisibleAt (key : Key) (at_ : Seq) (e : Entry) : Prop := e.key = key ∧ e.seq ≤ at_

instance (key : Key) (at_ : Seq) (e : Entry) : Decidable (e.VisibleAt key at_) :=
  inferInstanceAs (Decidable (_ ∧ _))

end Entry

def Ascending (entries : List Entry) : Prop := entries.Pairwise Entry.Precedes

instance (entries : List Entry) : Decidable (Ascending entries) :=
  inferInstanceAs (Decidable (entries.Pairwise _))

def putU32 (value : ℕ) : List UInt8 := putLE 4 value

def putU64 (value : ℕ) : List UInt8 := putLE 8 value

def getU32 (bytes : List UInt8) (pos : ℕ) : ℕ := getAt 4 bytes pos

def getU64 (bytes : List UInt8) (pos : ℕ) : ℕ := getAt 8 bytes pos

def crcStep (crc : UInt32) : UInt32 :=
  if crc &&& 1 ≠ 0 then (0xEDB88320 : UInt32) ^^^ (crc >>> 1) else crc >>> 1

def crcTable (index : UInt8) : UInt32 := crcStep^[8] index.toUInt32

namespace Crc32

def compute (data : List UInt8) : ℕ :=
  let crc : UInt32 :=
    data.foldl (fun crc byte ↦ (crc >>> 8) ^^^ crcTable (crc.toUInt8 ^^^ byte)) 0xFFFFFFFF
  (crc ^^^ (0xFFFFFFFF : UInt32)).toNat

lemma compute_lt (data : List UInt8) : compute data < 2 ^ 32 := UInt32.toNat_lt _

end Crc32

@[simp]
lemma length_putU32 (value : ℕ) : (putU32 value).length = 4 := length_putLE 4 value

@[simp]
lemma length_putU64 (value : ℕ) : (putU64 value).length = 8 := length_putLE 8 value

lemma putU64_mod (value : ℕ) : putU64 (value % 2 ^ 64) = putU64 value := putLE_mod 8 value

lemma getU32_lt (bytes : List UInt8) (pos : ℕ) : getU32 bytes pos < 2 ^ 32 := by
  have hwidth : ((bytes.drop pos).take 4).length ≤ 4 := length_take_le _ _
  exact (getLE_lt _).trans_le (Nat.pow_le_pow_right (show 0 < 256 by decide) hwidth)

variable {before : List UInt8}

lemma getU32_skip {pos : ℕ} (hpos : before.length ≤ pos)
    (rest : List UInt8) : getU32 (before ++ rest) pos = getU32 rest (pos - before.length) :=
  getAt_skip hpos rest 4

lemma getU32_take {cut pos : ℕ} (hcut : pos + 4 ≤ cut) (bytes : List UInt8) :
    getU32 (bytes.take cut) pos = getU32 bytes pos := by
  rw [getU32, getAt, drop_take, take_take, min_eq_left (Nat.le_sub_of_add_le' hcut)]
  rfl

lemma getU64_skip {pos : ℕ} (hpos : before.length ≤ pos)
    (rest : List UInt8) : getU64 (before ++ rest) pos = getU64 rest (pos - before.length) :=
  getAt_skip hpos rest 8

lemma getU32_putU32 {value : ℕ} (hvalue : value < 2 ^ 32) (rest : List UInt8) :
    getU32 (putU32 value ++ rest) 0 = value :=
  getAt_putLE hvalue rest

lemma getU64_putU64 {value : ℕ} (hvalue : value < 2 ^ 64) (rest : List UInt8) :
    getU64 (putU64 value ++ rest) 0 = value :=
  getAt_putLE hvalue rest

namespace Format

def kSstableVersion : ℕ := 1

def kManifestVersion : ℕ := 1

def kWalStreamVersion : ℕ := 1

def kStreamHeaderBytes : ℕ := 8

def putStreamHeader (magic version : ℕ) : List UInt8 := putU32 magic ++ putU32 version

def checkStreamHeader (image : List UInt8) (magic expect : ℕ) : Bool :=
  if image.length < kStreamHeaderBytes then false
  else if getU32 image 0 ≠ magic then false
  else getU32 image 4 = expect

lemma length_putStreamHeader (magic version : ℕ) :
    (putStreamHeader magic version).length = kStreamHeaderBytes := by
  rw [putStreamHeader, length_append, length_putU32, length_putU32, kStreamHeaderBytes]

variable {magic version : ℕ}

lemma getU32_putStreamHeader (rest : List UInt8) (hmagic : magic < 2 ^ 32) :
    getU32 (putStreamHeader magic version ++ rest) 0 = magic := by
  rw [putStreamHeader, append_assoc, getU32_putU32 hmagic]

lemma checkStreamHeader_putStreamHeader (rest : List UInt8)
    (hmagic : magic < 2 ^ 32) (hversion : version < 2 ^ 32) :
    checkStreamHeader (putStreamHeader magic version ++ rest) magic version = true := by
  have hlength : ¬ (putStreamHeader magic version ++ rest).length < kStreamHeaderBytes := by
    rw [length_append, length_putStreamHeader]
    omega
  have hread : getU32 (putStreamHeader magic version ++ rest) 4 = version := by
    rw [putStreamHeader, append_assoc, getU32_skip (length_putU32 magic).le, length_putU32,
      getU32_putU32 hversion]
  rw [checkStreamHeader, if_neg hlength, if_neg (not_not.mpr (getU32_putStreamHeader rest hmagic)),
    hread, decide_eq_true rfl]

end Format

end Lockstep.Storage
