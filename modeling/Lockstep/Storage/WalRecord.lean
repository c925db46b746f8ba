import Lockstep.Storage.Codec

/-!
# The write-ahead log record

The bytes of a record of the write-ahead log (`storage/WalEngine.hpp`): magic, type, sequence
number, key and value lengths, key, value, and a CRC-32 over all of it. It inverts `encodeRecord` on
records whose fields have the widths of the format (`tryDecode_encodeRecord`).
-/

namespace Lockstep.Storage

open Library.ByteCodec List

def kWalMagic : ℕ := 0x4C57414C

def kWalStreamMagic : ℕ := 0x4C57534D

def kWalHeaderBytes : ℕ := 21

def kWalCrcBytes : ℕ := 4

namespace WalRecord

def typeByte (r : WalRecord) : UInt8 := if r.tombstone then 1 else if r.vlog then 2 else 0

def header (r : WalRecord) : List UInt8 :=
  putU32 kWalMagic ++ ([typeByte r] ++ (putU64 r.seq ++ (putU32 r.key.length ++
    putU32 r.value.length)))

def payload (r : WalRecord) : List UInt8 := header r ++ (r.key ++ r.value)

structure Fits (r : WalRecord) : Prop where
  seq : r.seq < 2 ^ 64
  key : r.key.length < 2 ^ 32
  value : r.value.length < 2 ^ 32
  tombstone : r.tombstone = true → r.vlog = false

end WalRecord

/-- A record: header, key, value and checksum. -/
def encodeRecord (r : WalRecord) : List UInt8 :=
  WalRecord.payload r ++ putU32 (Crc32.compute (WalRecord.payload r))

/-- The record at the front of the bytes, if it is whole. -/
def tryDecode (image : List UInt8) : Option (WalRecord × List UInt8) :=
  if image.length < kWalHeaderBytes + kWalCrcBytes then none
  else if getU32 image 0 ≠ kWalMagic then none
  else
    let type := getAt 1 image 4
    if 2 < type then none
    else
      let seq := getU64 image 5
      let klen := getU32 image 13
      let vlen := getU32 image 17
      let recordBytes := kWalHeaderBytes + (klen + vlen)
      let total := recordBytes + kWalCrcBytes
      if image.length < total then none
      else if getU32 image recordBytes ≠ Crc32.compute (image.take recordBytes) then none
      else
        some ({ seq := seq, key := slice image kWalHeaderBytes klen,
                value := slice image (kWalHeaderBytes + klen) vlen, tombstone := type = 1,
                vlog := type = 2 }, image.drop total)

/-! ### Reading a record back -/

namespace WalRecord

variable (r)

lemma length_header : (header r).length = kWalHeaderBytes := by
  simp [header, kWalHeaderBytes]

lemma length_payload :
    (payload r).length = kWalHeaderBytes + (r.key.length + r.value.length) := by
  rw [payload, length_append, length_append, length_header]

lemma length_encodeRecord : (encodeRecord r).length =
      kWalHeaderBytes + (r.key.length + r.value.length) + kWalCrcBytes := by
  rw [encodeRecord, length_append, length_payload, length_putU32, kWalCrcBytes]

lemma typeByte_cases (htomb : r.tombstone = true → r.vlog = false) :
    (typeByte r).toNat ≤ 2 ∧ decide ((typeByte r).toNat = 1) = r.tombstone ∧
      decide ((typeByte r).toNat = 2) = r.vlog := by
  unfold typeByte
  cases htombstone : r.tombstone with
  | true => simp [htomb htombstone]
  | false => cases r.vlog <;> simp

end WalRecord

open WalRecord

lemma encodeRecord_append (r : WalRecord) (rest : List UInt8) : encodeRecord r ++ rest =
    payload r ++ (putU32 (Crc32.compute (payload r)) ++ rest) := append_assoc ..

variable {r : WalRecord}

lemma getU32_lengths (hfits : Fits r) (rest : List UInt8) :
    getU32 (encodeRecord r ++ rest) 13 = r.key.length ∧
      getU32 (encodeRecord r ++ rest) 17 = r.value.length := by
  constructor
  · simp (disch := simp) only [encodeRecord_append, payload, header, append_assoc, getU32_skip,
      length_putU32, length_putU64, length_singleton]
    exact getU32_putU32 hfits.key _
  · simp (disch := simp) only [encodeRecord_append, payload, header, append_assoc, getU32_skip,
      length_putU32, length_putU64, length_singleton]
    exact getU32_putU32 hfits.value _

lemma tryDecode_encodeRecord (hfits : Fits r) (rest : List UInt8) :
    tryDecode (encodeRecord r ++ rest) = some (r, rest) := by
  have hbyte : [typeByte r] = putLE 1 (typeByte r).toNat := by simp [putLE]
  have hsize := length_encodeRecord r
  have hpay := length_payload r
  obtain ⟨hklen, hvlen⟩ := getU32_lengths hfits rest
  have hdrop : (encodeRecord r ++ rest).drop
      (kWalHeaderBytes + (r.key.length + r.value.length) + kWalCrcBytes) = rest := drop_left' hsize
  have hfields : getU32 (encodeRecord r ++ rest) 0 = kWalMagic ∧
      getAt 1 (encodeRecord r ++ rest) 4 = (typeByte r).toNat ∧
      getU64 (encodeRecord r ++ rest) 5 = r.seq ∧
      slice (encodeRecord r ++ rest) kWalHeaderBytes r.key.length = r.key ∧
      slice (encodeRecord r ++ rest) (kWalHeaderBytes + r.key.length) r.value.length = r.value := by
    simp (disch := simp +arith) only [encodeRecord_append, payload, header, hbyte, append_assoc,
      getU64_skip, getAt_skip, slice_skip, length_putU32, length_putU64, length_putLE,
      kWalHeaderBytes, Nat.sub_sub, Nat.add_sub_cancel_left, Nat.sub_self]
    exact ⟨getU32_putU32 (by decide) _, getAt_putLE (UInt8.toNat_lt _) _,
      getU64_putU64 hfits.seq _, slice_left rfl _, slice_left rfl _⟩
  have hcrc : getU32 (encodeRecord r ++ rest) (kWalHeaderBytes + (r.key.length + r.value.length)) =
      Crc32.compute (payload r) := by
    rw [encodeRecord_append, getU32_skip hpay.le, hpay, Nat.sub_self,
      getU32_putU32 (Crc32.compute_lt _)]
  have htake : (encodeRecord r ++ rest).take (kWalHeaderBytes + (r.key.length + r.value.length)) =
      payload r := by
    rw [encodeRecord_append, ← hpay, take_left]
  obtain ⟨hmagic, htype, hseq, hkey, hvalue⟩ := hfields
  obtain ⟨htype_le, htombstone, hvlog⟩ := typeByte_cases r hfits.tombstone
  rw [tryDecode, if_neg (by rw [length_append]; omega), if_neg (not_not.mpr hmagic)]
  simp only [htype, hseq, hklen, hvlen, hkey, hvalue, hdrop, htake, htombstone, hvlog]
  rw [if_neg (by omega), if_neg (by rw [length_append]; omega), if_neg (not_not.mpr hcrc)]

lemma tryDecode_take (hfits : Fits r) {cut : ℕ}
    (hcut : cut < (encodeRecord r).length) : tryDecode ((encodeRecord r).take cut) = none := by
  have hlength : ((encodeRecord r).take cut).length = cut := length_take_of_le hcut.le
  rw [tryDecode]
  split_ifs with hshort hmagic
  · rfl
  · rfl
  · rw [hlength, not_lt, kWalHeaderBytes, kWalCrcBytes] at hshort
    obtain ⟨hklen, hvlen⟩ := getU32_lengths hfits []
    rw [append_nil] at hklen hvlen
    rw [length_encodeRecord] at hcut
    dsimp only
    rw [getU32_take (by omega), getU32_take (by omega), hklen, hvlen, hlength, if_pos hcut,
      ite_self]

end Lockstep.Storage
