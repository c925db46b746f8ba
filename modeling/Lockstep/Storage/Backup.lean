import Lockstep.Storage.Codec

/-!
# Restoring a backup

The two restores of `storage/Backup.hpp`. `restoreTask` reads the stream from a disk and checks a
record just before it puts it, so a payload whose checksum is right and whose framing is not is
restored in part (`restore_untouched_iff`).
-/

namespace Lockstep.Storage.Backup

open Library.ByteCodec

def kBackupHeaderBytes : ℕ := 28

def kBackupVersion : ℕ := 1

structure Restore where
  puts : List (Key × Value) := []
  error : Option String := none
  deriving DecidableEq

def readRecord (payload : List UInt8) : Except String ((Key × Value) × List UInt8) :=
  if payload.length < 8 then .error "backup: truncated record header"
  else
    let klen := getU32 payload 0
    let vlen := getU32 payload 4
    if payload.length < 8 + klen + vlen then .error "backup: truncated record"
    else .ok ((slice payload 8 klen, slice payload (8 + klen) vlen),
      payload.drop (8 + klen + vlen))

def readHeader (image : List UInt8) : Except String (ℕ × ℕ) :=
  if slice image 0 4 ≠ [0x4C, 0x53, 0x42, 0x31] then .error "backup: bad magic"
  else if getU32 image 4 ≠ kBackupVersion then .error "backup: unsupported version"
  else .ok (getU64 image 16, getU32 image 24)

def readPayload (image : List UInt8) (payloadLen wantCrc : ℕ) : Except String (List UInt8) :=
  let payload := slice image kBackupHeaderBytes payloadLen
  if Crc32.compute payload ≠ wantCrc then .error "backup: CRC mismatch (torn/corrupt backup)"
  else .ok payload

def checkFraming : ℕ → List UInt8 → Except String Unit
  | 0, _ => .ok ()
  | fuel + 1, payload =>
    if payload = [] then .ok () else (readRecord payload).bind fun r ↦ checkFraming fuel r.2

def replay : ℕ → List UInt8 → Restore
  | 0, _ => {}
  | fuel + 1, payload =>
    if payload = [] then {}
    else
      match readRecord payload with
      | .error e => { error := some e }
      | .ok (record, rest) => { replay fuel rest with puts := record :: (replay fuel rest).puts }

def openStream (image : List UInt8) : Except String (List UInt8) :=
  if image.length < kBackupHeaderBytes then .error "read past the end"
  else
    (readHeader image).bind fun (payloadLen, wantCrc) ↦
      if image.length < kBackupHeaderBytes + payloadLen then .error "read past the end"
      else readPayload image payloadLen wantCrc

def restoreTask (image : List UInt8) : Restore :=
  match openStream image with
  | .error e => { error := some e }
  | .ok payload => replay payload.length payload

def validateImage (image : List UInt8) : Except String (Option (List UInt8)) :=
  if image.length < kBackupHeaderBytes then .error "backup: bad magic"
  else
    (readHeader image).bind fun (payloadLen, wantCrc) ↦
      if image.length < (kBackupHeaderBytes + payloadLen) % 2 ^ 64 then
        .error "backup: truncated image"
      else if image.length < kBackupHeaderBytes + payloadLen then .ok none
      else
        (readPayload image payloadLen wantCrc).bind fun payload ↦
          (checkFraming payload.length payload).map fun _ ↦ some payload

def applyBackupImage (image : List UInt8) : Option Restore :=
  match validateImage image with
  | .error e => some { error := some e }
  | .ok payload => payload.map fun payload ↦ replay payload.length payload

/-! ### When they differ -/

variable {image payload : List UInt8} {fuel : ℕ}

lemma replay_error_eq_none :
    (replay fuel payload).error = none ↔ checkFraming fuel payload = .ok () := by
  induction fuel generalizing payload with
  | zero => exact ⟨fun _ ↦ rfl, fun _ ↦ rfl⟩
  | succ fuel ih =>
    rw [replay, checkFraming]
    split_ifs
    · exact ⟨fun _ ↦ rfl, fun _ ↦ rfl⟩
    · cases readRecord payload with
      | error e => exact ⟨nofun, nofun⟩
      | ok r => exact ih

lemma validateImage_eq_some :
    validateImage image = .ok (some payload) ↔
      openStream image = .ok payload ∧ checkFraming payload.length payload = .ok () := by
  rw [validateImage, openStream]
  split_ifs
  · exact ⟨nofun, fun h ↦ absurd h.1 nofun⟩
  cases readHeader image with
  | error e => exact ⟨nofun, fun h ↦ absurd h.1 nofun⟩
  | ok header =>
    obtain ⟨payloadLen, wantCrc⟩ := header
    have hle := Nat.mod_le (kBackupHeaderBytes + payloadLen) (2 ^ 64)
    simp only [Except.bind]
    split_ifs with hwrapped hshort hshort
    · exact ⟨nofun, fun h ↦ absurd h.1 nofun⟩
    · omega
    · exact ⟨nofun, fun h ↦ absurd h.1 nofun⟩
    · cases readPayload image payloadLen wantCrc with
      | error e => exact ⟨nofun, fun h ↦ absurd h.1 nofun⟩
      | ok found =>
        simp only [Except.ok.injEq]
        constructor
        · intro h
          cases hframing : checkFraming found.length found with
          | error e => simp [hframing, Except.map] at h
          | ok u =>
            simp only [hframing, Except.map, Except.ok.injEq, Option.some.injEq] at h
            subst h
            exact ⟨rfl, hframing⟩
        · rintro ⟨rfl, hframing⟩
          rw [hframing]
          rfl

lemma applyBackupImage_accepts :
    (∃ r, applyBackupImage image = some r ∧ r.error = none) ↔
      ∃ payload, openStream image = .ok payload ∧
        checkFraming payload.length payload = .ok () := by
  simp only [← validateImage_eq_some, applyBackupImage]
  cases hvalid : validateImage image with
  | error e => simp
  | ok payload =>
    cases payload with
    | none => simp
    | some payload => simpa using replay_error_eq_none.mpr (validateImage_eq_some.mp hvalid).2

lemma replay_puts_eq_nil :
    (replay payload.length payload).puts = [] ↔ ∀ r, readRecord payload ≠ .ok r := by
  cases payload with
  | nil => exact ⟨fun _ r ↦ nofun, fun _ ↦ rfl⟩
  | cons byte payload =>
    rw [List.length_cons, replay, if_neg (List.cons_ne_nil _ _)]
    cases readRecord (byte :: payload) with
    | error e => simp
    | ok r => simp

/-- A failed restore from a disk has put nothing, and the two restores accept the same streams,
exactly when a payload that starts with a whole record is framed throughout. -/
theorem restore_untouched_iff (image : List UInt8) :
    (((restoreTask image).error ≠ none → (restoreTask image).puts = []) ∧
        ((restoreTask image).error = none ↔
          ∃ r, applyBackupImage image = some r ∧ r.error = none)) ↔
      ∀ payload r, openStream image = .ok payload → readRecord payload = .ok r →
        checkFraming payload.length payload = .ok () := by
  rw [applyBackupImage_accepts, restoreTask]
  cases openStream image with
  | error e => simp
  | ok payload =>
    simp only [replay_error_eq_none, replay_puts_eq_nil, Except.ok.injEq, exists_eq_left', ne_eq,
      and_true]
    constructor
    · rintro h _ r rfl hrecord
      by_contra hframing
      exact h hframing r hrecord
    · exact fun h hframing r hrecord ↦ hframing (h payload r rfl hrecord)

def tornStream : List UInt8 :=
  let payload := putU32 1 ++ putU32 1 ++ [7, 8] ++ [0]
  [0x4C, 0x53, 0x42, 0x31] ++ putU32 1 ++ putU64 5 ++ putU64 payload.length ++
    putU32 (Crc32.compute payload) ++ payload

/-- The record is put, and then the restore fails. -/
theorem restoreTask_tornStream : restoreTask tornStream =
      { puts := [([7], [8])], error := some "backup: truncated record header" } ∧
    applyBackupImage tornStream = some { error := some "backup: truncated record header" } := by
  decide +kernel

end Lockstep.Storage.Backup
