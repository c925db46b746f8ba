import Lockstep.Storage.Codec

/-!
# The manifest records

The append-only install log of `storage/SSTable.hpp`. A record installs an SSTable, obsoletes one,
or raises the watermark up to which the write-ahead log is covered by SSTables; the three kinds
share one numbering. It inverts the encoders on records whose fields fit in 64 bits
(`decodeManifest_encode`); every record is written as one that does (`encode_wrap`).
-/

namespace Lockstep.Storage

open Library.ByteCodec Crc32 List

def kManMagic : ℕ := 0x4C4D414E

def kManObsoleteMagic : ℕ := 0x4D42534F

def kManWalTruncMagic : ℕ := 0x4D52544C

def kManStreamMagic : ℕ := 0x4D4E5453

def kManRecordBytes : ℕ := 48

def kManAuxRecordBytes : ℕ := 24

inductive ManifestKind where
  | install (sstableId sstLen : ℕ) (minSeq maxSeq : Seq)
  | obsolete (sstableId : ℕ)
  | walTrunc (walTruncSeq : Seq)
  deriving DecidableEq

/-- A table is installed, made obsolete, or the log truncated. -/
structure ManifestRecord where
  entryNo : ℕ
  kind : ManifestKind
  deriving DecidableEq

def withCrc (body : List UInt8) : List UInt8 := body ++ putU32 (compute body)

def encodeManifest (entryNo sstableId sstLen : ℕ) (minSeq maxSeq : Seq) : List UInt8 :=
  withCrc (putU32 kManMagic ++ (putU64 entryNo ++ (putU64 sstableId ++ (putU64 sstLen ++
    (putU64 minSeq ++ putU64 maxSeq)))))

def encodeAux (magic entryNo payload : ℕ) : List UInt8 :=
  withCrc (putU32 magic ++ (putU64 entryNo ++ putU64 payload))

def encodeManifestObsolete (entryNo sstableId : ℕ) : List UInt8 :=
  encodeAux kManObsoleteMagic entryNo sstableId

def encodeManifestWalTrunc (entryNo : ℕ) (walTruncSeq : Seq) : List UInt8 :=
  encodeAux kManWalTruncMagic entryNo walTruncSeq

def ManifestRecord.encode (r : ManifestRecord) : List UInt8 :=
  match r.kind with
  | .install id len minSeq maxSeq => encodeManifest r.entryNo id len minSeq maxSeq
  | .obsolete id => encodeManifestObsolete r.entryNo id
  | .walTrunc seq => encodeManifestWalTrunc r.entryNo seq

/-- The first record of the bytes, if it is whole. -/
def decodeManifest (image : List UInt8) : Option (ManifestRecord × List UInt8) :=
  if image.length < 4 then none
  else
    let magic := getU32 image 0
    if magic = kManMagic then
      if image.length < kManRecordBytes then none
      else
        let body := kManRecordBytes - 4
        if getU32 image body ≠ compute (image.take body) then none
        else
          some ({ entryNo := getU64 image 4
                  kind := .install (getU64 image 12) (getU64 image 20) (getU64 image 28)
                    (getU64 image 36) }, image.drop kManRecordBytes)
    else if magic = kManObsoleteMagic ∨ magic = kManWalTruncMagic then
      if image.length < kManAuxRecordBytes then none
      else
        let body := kManAuxRecordBytes - 4
        if getU32 image body ≠ compute (image.take body) then none
        else
          let payload := getU64 image 12
          some ({ entryNo := getU64 image 4
                  kind := if magic = kManObsoleteMagic then .obsolete payload
                    else .walTrunc payload }, image.drop kManAuxRecordBytes)
    else none

/-! ### Reading a record back -/

def ManifestRecord.Fits (r : ManifestRecord) : Prop :=
  r.entryNo < 2 ^ 64 ∧
    match r.kind with
    | .install id len minSeq maxSeq =>
      id < 2 ^ 64 ∧ len < 2 ^ 64 ∧ minSeq < 2 ^ 64 ∧ maxSeq < 2 ^ 64
    | .obsolete id => id < 2 ^ 64
    | .walTrunc seq => seq < 2 ^ 64

lemma withCrc_fields (body rest : List UInt8) :
    (withCrc body ++ rest).length = body.length + 4 + rest.length ∧
      getU32 (withCrc body ++ rest) body.length = compute body ∧
      (withCrc body ++ rest).take body.length = body ∧
      (withCrc body ++ rest).drop (body.length + 4) = rest := by
  have hlength : (withCrc body).length = body.length + 4 := by
    rw [withCrc, length_append, length_putU32]
  refine ⟨by rw [length_append, hlength], ?_, ?_, by rw [← hlength, drop_left]⟩
  · rw [withCrc, append_assoc, getU32_skip le_rfl, Nat.sub_self, getU32_putU32 (compute_lt _)]
  · rw [withCrc, append_assoc, take_left]

lemma decodeManifest_encodeManifest {entryNo id len : ℕ} {minSeq maxSeq : Seq}
    (hentry : entryNo < 2 ^ 64) (hid : id < 2 ^ 64) (hlen : len < 2 ^ 64)
    (hmin : minSeq < 2 ^ 64) (hmax : maxSeq < 2 ^ 64) (rest : List UInt8) :
    decodeManifest (encodeManifest entryNo id len minSeq maxSeq ++ rest) =
      some ({ entryNo := entryNo, kind := .install id len minSeq maxSeq }, rest) := by
  set body := putU32 kManMagic ++ (putU64 entryNo ++ (putU64 id ++ (putU64 len ++
    (putU64 minSeq ++ putU64 maxSeq)))) with hbody
  have hbodyLength : body.length = 44 := by simp [hbody]
  have hfields : getU32 (withCrc body ++ rest) 0 = kManMagic ∧
      getU64 (withCrc body ++ rest) 4 = entryNo ∧ getU64 (withCrc body ++ rest) 12 = id ∧
      getU64 (withCrc body ++ rest) 20 = len ∧ getU64 (withCrc body ++ rest) 28 = minSeq ∧
      getU64 (withCrc body ++ rest) 36 = maxSeq := by
    simp (disch := simp) only [withCrc, hbody, append_assoc, getU64_skip, length_putU32,
      length_putU64]
    exact ⟨getU32_putU32 (by decide) _, getU64_putU64 hentry _, getU64_putU64 hid _,
      getU64_putU64 hlen _, getU64_putU64 hmin _, getU64_putU64 hmax _⟩
  obtain ⟨hlength, hcrc, htake, hdrop⟩ := withCrc_fields body rest
  obtain ⟨hmagic, hentryNo, hsst, hsstLen, hminSeq, hmaxSeq⟩ := hfields
  rw [hbodyLength] at hlength hcrc htake hdrop
  rw [encodeManifest, ← hbody, decodeManifest, if_neg (by omega)]
  simp only [hmagic, if_true, kManRecordBytes, Nat.reduceSub, hcrc, htake, hentryNo, hsst,
    hsstLen, hminSeq, hmaxSeq, hdrop]
  rw [if_neg (by omega), if_neg (not_not.mpr rfl)]

lemma decodeManifest_encodeAux {magic entryNo payload : ℕ}
    (hmagic : magic = kManObsoleteMagic ∨ magic = kManWalTruncMagic) (hentry : entryNo < 2 ^ 64)
    (hpayload : payload < 2 ^ 64) (rest : List UInt8) :
    decodeManifest (encodeAux magic entryNo payload ++ rest) =
      some ({ entryNo := entryNo
              kind := if magic = kManObsoleteMagic then .obsolete payload
                else .walTrunc payload }, rest) := by
  set body := putU32 magic ++ (putU64 entryNo ++ putU64 payload) with hbody
  have hbodyLength : body.length = 20 := by simp [hbody]
  have hword : magic < 2 ^ 32 ∧ magic ≠ kManMagic := by
    rcases hmagic with rfl | rfl <;> decide
  have hfields : getU32 (withCrc body ++ rest) 0 = magic ∧
      getU64 (withCrc body ++ rest) 4 = entryNo ∧ getU64 (withCrc body ++ rest) 12 = payload := by
    simp (disch := simp) only [withCrc, hbody, append_assoc, getU64_skip, length_putU32,
      length_putU64]
    exact ⟨getU32_putU32 hword.1 _, getU64_putU64 hentry _, getU64_putU64 hpayload _⟩
  obtain ⟨hlength, hcrc, htake, hdrop⟩ := withCrc_fields body rest
  obtain ⟨hread, hentryNo, hvalue⟩ := hfields
  rw [hbodyLength] at hlength hcrc htake hdrop
  rw [encodeAux, ← hbody, decodeManifest, if_neg (by omega)]
  simp only [hread, kManAuxRecordBytes, Nat.reduceSub, hcrc, htake, hentryNo, hvalue, hdrop]
  rw [if_neg hword.2, if_pos hmagic, if_neg (by omega), if_neg (not_not.mpr rfl)]

variable {r : ManifestRecord}

lemma decodeManifest_encode (hfits : r.Fits) (rest : List UInt8) :
    decodeManifest (r.encode ++ rest) = some (r, rest) := by
  obtain ⟨entryNo, kind⟩ := r
  obtain ⟨hentry, hkind⟩ := hfits
  cases kind with
  | install id len minSeq maxSeq =>
    obtain ⟨hid, hlen, hmin, hmax⟩ := hkind
    exact decodeManifest_encodeManifest hentry hid hlen hmin hmax rest
  | obsolete id => exact decodeManifest_encodeAux (.inl rfl) hentry hkind rest
  | walTrunc seq => exact decodeManifest_encodeAux (.inr rfl) hentry hkind rest

namespace ManifestRecord

def wrap (r : ManifestRecord) : ManifestRecord where
  entryNo := r.entryNo % 2 ^ 64
  kind :=
    match r.kind with
    | .install id len minSeq maxSeq =>
      .install (id % 2 ^ 64) (len % 2 ^ 64) (minSeq % 2 ^ 64) (maxSeq % 2 ^ 64)
    | .obsolete id => .obsolete (id % 2 ^ 64)
    | .walTrunc seq => .walTrunc (seq % 2 ^ 64)

lemma wrap_fits (r : ManifestRecord) : r.wrap.Fits := by
  have hlt : ∀ value : ℕ, value % 2 ^ 64 < 2 ^ 64 := fun value ↦ Nat.mod_lt _ (by decide)
  obtain ⟨entryNo, kind⟩ := r
  cases kind with
  | install id len minSeq maxSeq => exact ⟨hlt _, hlt _, hlt _, hlt _, hlt _⟩
  | obsolete id => exact ⟨hlt _, hlt _⟩
  | walTrunc seq => exact ⟨hlt _, hlt _⟩

lemma encode_wrap (r : ManifestRecord) : r.wrap.encode = r.encode := by
  obtain ⟨entryNo, kind⟩ := r
  cases kind <;>
    simp only [wrap, encode, encodeManifest, encodeManifestObsolete, encodeManifestWalTrunc,
      encodeAux, putU64_mod]

lemma wrap_eq_self (hfits : r.Fits) : r.wrap = r := by
  have hwrap := decodeManifest_encode r.wrap_fits []
  rw [encode_wrap, decodeManifest_encode hfits, Option.some.injEq, Prod.mk.injEq] at hwrap
  exact hwrap.1.symm

end ManifestRecord

lemma length_encode_pos (r : ManifestRecord) : 0 < r.encode.length := by
  obtain ⟨entryNo, kind⟩ := r
  cases kind <;>
    simp [ManifestRecord.encode, encodeManifest, encodeManifestObsolete, encodeManifestWalTrunc,
      encodeAux, withCrc]

end Lockstep.Storage
