import Lockstep.Storage.Codec

/-!
# The value log

Large values live out of line (`storage/ValueLog.hpp`). A record of a value log is
`[magic][vlen][value][crc]`, and the pointer stored in place of the value is
`[value_off][vlen][crc][gen]`, where `gen` names the disk that holds the record.
-/

namespace Lockstep.Storage

open Library.ByteCodec Crc32 List

def kVlogMagic : ℕ := 0x474C564C

def kVlogRecordHeaderBytes : ℕ := 8

def kVlogCrcBytes : ℕ := 4

def kVlogPtrBytes : ℕ := 24

/-- Where a large value is: generation, offset, length. -/
structure VlogPtr where
  valueOff : ℕ
  vlen : ℕ
  crc : ℕ
  gen : ℕ
  deriving DecidableEq

namespace VlogPtr

def encode (p : VlogPtr) : Value :=
  putU64 p.valueOff ++ (putU32 p.vlen ++ (putU32 p.crc ++ putU64 p.gen))

def decode (bytes : Value) : Option VlogPtr :=
  if bytes.length ≠ kVlogPtrBytes then none
  else some { valueOff := getU64 bytes 0, vlen := getU32 bytes 8, crc := getU32 bytes 12,
              gen := getU64 bytes 16 }

structure Fits (p : VlogPtr) : Prop where
  valueOff : p.valueOff < 2 ^ 64
  vlen : p.vlen < 2 ^ 32
  crc : p.crc < 2 ^ 32
  gen : p.gen < 2 ^ 64

lemma decode_encode {p : VlogPtr} (hfits : p.Fits) : decode p.encode = some p := by
  have hlength : p.encode.length = kVlogPtrBytes := by simp [encode, kVlogPtrBytes]
  have hoff : getU64 p.encode 0 = p.valueOff := getU64_putU64 hfits.valueOff _
  have hvlen : getU32 p.encode 8 = p.vlen := by
    simp (disch := simp) only [encode, getU32_skip, length_putU64]
    exact getU32_putU32 hfits.vlen _
  have hcrc : getU32 p.encode 12 = p.crc := by
    simp (disch := simp) only [encode, getU32_skip, length_putU64, length_putU32]
    exact getU32_putU32 hfits.crc _
  have hgen : getU64 p.encode 16 = p.gen := by
    rw [encode, ← append_nil (putU64 p.gen)]
    simp (disch := simp) only [getU64_skip, length_putU64, length_putU32]
    exact getU64_putU64 hfits.gen _
  rw [decode, if_neg (not_not.mpr hlength), hoff, hvlen, hcrc, hgen]

lemma vlen_lt {bytes : Value} {p : VlogPtr} (h : decode bytes = some p) : p.vlen < 2 ^ 32 := by
  rw [decode] at h
  split_ifs at h
  rw [← Option.some.inj h]
  exact getU32_lt _ _

end VlogPtr

def vlogPayload (value : Value) : List UInt8 :=
  putU32 kVlogMagic ++ (putU32 value.length ++ value)

structure VlogEncoded where
  bytes : List UInt8
  ptr : VlogPtr
  deriving DecidableEq

def encodeVlogRecord (value : Value) (baseOff gen : ℕ) : VlogEncoded where
  bytes := vlogPayload value ++ putU32 (compute (vlogPayload value))
  ptr :=
    { valueOff := baseOff + kVlogRecordHeaderBytes, vlen := value.length % 2 ^ 32,
      crc := compute (vlogPayload value), gen := gen }

/-- The value of a pointer, if the record is whole. -/
def vlogDeref (image : List UInt8) (ptr : VlogPtr) : Option Value :=
  if ptr.valueOff < kVlogRecordHeaderBytes then none
  else
    let recOff := ptr.valueOff - kVlogRecordHeaderBytes
    let recEnd := (recOff + kVlogRecordHeaderBytes + ptr.vlen + kVlogCrcBytes) % 2 ^ 64
    if image.length < recEnd then none
    else if getU32 image recOff ≠ kVlogMagic then none
    else if getU32 image (recOff + 4) ≠ ptr.vlen then none
    else
      let crcOff := kVlogRecordHeaderBytes + ptr.vlen
      let want := getU32 image (recOff + crcOff)
      if want ≠ compute (slice image recOff crcOff) ∨ want ≠ ptr.crc then none
      else some (slice image (recOff + kVlogRecordHeaderBytes) ptr.vlen)

lemma length_le_of_vlogDeref {image : List UInt8} {ptr : VlogPtr} {value : Value}
    (h : vlogDeref image ptr = some value) : value.length ≤ ptr.vlen := by
  simp only [vlogDeref] at h
  split_ifs at h
  rw [← Option.some.inj h]
  exact length_take_le _ _

lemma length_vlogPayload (value : Value) :
    (vlogPayload value).length = kVlogRecordHeaderBytes + value.length := by
  simp only [vlogPayload, length_append, length_putU32, kVlogRecordHeaderBytes]
  omega

lemma length_encodeVlogRecord (value : Value) (baseOff gen : ℕ) :
    (encodeVlogRecord value baseOff gen).bytes.length =
      kVlogRecordHeaderBytes + value.length + kVlogCrcBytes := by
  rw [encodeVlogRecord, length_append, length_vlogPayload, length_putU32, kVlogCrcBytes]

lemma vlogDeref_encodeVlogRecord {value : Value} (hvalue : value.length < 2 ^ 32)
    (baseOff gen : ℕ) :
    vlogDeref (encodeVlogRecord value baseOff gen).bytes
        { (encodeVlogRecord value baseOff gen).ptr with valueOff := kVlogRecordHeaderBytes } =
      some value := by
  have hpayload := length_vlogPayload value
  have hvlen : (encodeVlogRecord value baseOff gen).ptr.vlen = value.length :=
    Nat.mod_eq_of_lt hvalue
  have hend : (kVlogRecordHeaderBytes + value.length + kVlogCrcBytes) % 2 ^ 64 =
      kVlogRecordHeaderBytes + value.length + kVlogCrcBytes := by
    refine Nat.mod_eq_of_lt ?_
    simp only [kVlogRecordHeaderBytes, kVlogCrcBytes]
    omega
  have hfields : getU32 (encodeVlogRecord value baseOff gen).bytes 0 = kVlogMagic ∧
      getU32 (encodeVlogRecord value baseOff gen).bytes 4 = value.length ∧
      slice (encodeVlogRecord value baseOff gen).bytes kVlogRecordHeaderBytes value.length =
        value := by
    simp (disch := simp) only [encodeVlogRecord, vlogPayload, append_assoc, getU32_skip,
      slice_skip, length_putU32, kVlogRecordHeaderBytes]
    exact ⟨getU32_putU32 (by decide) _, getU32_putU32 hvalue _, slice_left rfl _⟩
  have hcrc : getU32 (encodeVlogRecord value baseOff gen).bytes
      (kVlogRecordHeaderBytes + value.length) = compute (vlogPayload value) := by
    rw [encodeVlogRecord, getU32_skip hpayload.le, hpayload, Nat.sub_self,
      ← append_nil (putU32 _), getU32_putU32 (compute_lt _)]
  have hwhole : slice (encodeVlogRecord value baseOff gen).bytes 0
      (kVlogRecordHeaderBytes + value.length) = vlogPayload value := slice_left hpayload.symm _
  obtain ⟨hmagic, hlen, hslice⟩ := hfields
  rw [vlogDeref, if_neg (Nat.lt_irrefl _)]
  simp only [Nat.sub_self, Nat.zero_add, hvlen, hend, hmagic, hlen, hcrc, hwhole, hslice]
  rw [if_neg (by rw [length_encodeVlogRecord]; omega), if_neg (not_not.mpr rfl),
    if_neg (not_not.mpr rfl), if_neg (by simp [encodeVlogRecord])]

end Lockstep.Storage
