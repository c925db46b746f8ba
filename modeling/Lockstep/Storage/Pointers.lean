import Lockstep.Storage.EngineSteps
import Lockstep.Storage.ReadPath

/-!
# Pointers into the value log

Between crashes the disks only grow (`Disk.Grows`), and so a pointer that resolves keeps its value
(`derefValue_of_isPrefix`).

A version survives a crash with its value when it holds the value itself or a pointer to synced
bytes (`Durably`). Until the active value log is synced, the pointers into it are `Pending`.
-/

namespace Lockstep.Storage

open Library.ByteCodec VlogPtr Option
open List

lemma Disk.read_of_isPrefix {d d' : Disk} (himage : d.image <+: d'.image) {off len : ℕ}
    {window : List UInt8} (h : d.read off len = some window) : d'.read off len = some window := by
  obtain ⟨rest, hrest⟩ := himage
  rw [read] at h ⊢
  split_ifs at h with hlong
  have hwindow : off + len ≤ d.image.length := not_lt.mp hlong
  rw [← hrest, if_neg, ← some.inj h, slice_append hwindow]
  rw [length_append]
  omega

namespace WalEngine

def FactoryGrows (e after : WalEngine) : Prop := ∀ id, (e.factory id).Grows (after.factory id)

lemma crash_image (e : WalEngine) (id : ℕ) :
    (e.crash.factory id).image = (e.factory id).durable := Disk.image_crash _

lemma derefValue_of_isPrefix {e e' : WalEngine} (hlsm : e'.lsm = e.lsm) {pointer value : Value}
    (hgrows : ∀ ptr, decode pointer = some ptr →
      (e.factory ptr.gen).image <+: (e'.factory ptr.gen).image)
    (h : e.derefValue pointer = some value) : e'.derefValue pointer = some value := by
  rw [derefValue] at h ⊢
  rw [hlsm]
  split_ifs at h ⊢
  cases hdecode : decode pointer with
  | none => simp [hdecode] at h
  | some ptr =>
    simp only [hdecode] at h ⊢
    split_ifs at h ⊢
    cases hread : (e.factory ptr.gen).read (ptr.valueOff - kVlogRecordHeaderBytes)
        (kVlogRecordHeaderBytes + ptr.vlen + kVlogCrcBytes) with
    | none => simp [hread] at h
    | some window =>
      rw [Disk.read_of_isPrefix (hgrows ptr hdecode) hread]
      simpa only [hread] using h

lemma derefValue_encodeVlogRecord {e : WalEngine} (hlsm : e.lsm = true) {value : Value}
    {gen : ℕ} {front rest : List UInt8}
    (himage : (e.factory gen).image =
      front ++ ((encodeVlogRecord value front.length gen).bytes ++ rest))
    (hvalue : value.length < 2 ^ 32) (hoff : front.length + kVlogRecordHeaderBytes < 2 ^ 64)
    (hgen : gen < 2 ^ 64) :
    e.derefValue (encodeVlogRecord value front.length gen).ptr.encode = some value := by
  have hfits : (encodeVlogRecord value front.length gen).ptr.Fits :=
    ⟨hoff, Nat.mod_lt _ (by decide), Crc32.compute_lt _, hgen⟩
  have hlength : (encodeVlogRecord value front.length gen).bytes.length =
      kVlogRecordHeaderBytes + (encodeVlogRecord value front.length gen).ptr.vlen +
        kVlogCrcBytes := by
    rw [length_encodeVlogRecord]
    congr 2
    exact (Nat.mod_eq_of_lt hvalue).symm
  have hread : (e.factory gen).read front.length
      (encodeVlogRecord value front.length gen).bytes.length =
      some (encodeVlogRecord value front.length gen).bytes := by
    rw [Disk.read, himage, slice_skip le_rfl, Nat.sub_self, slice_left rfl, if_neg]
    rw [length_append, length_append]
    omega
  have hstart : (encodeVlogRecord value front.length gen).ptr.valueOff - kVlogRecordHeaderBytes =
      front.length := Nat.add_sub_cancel _ _
  have hpast : ¬ (encodeVlogRecord value front.length gen).ptr.valueOff < kVlogRecordHeaderBytes :=
    not_lt.mpr (Nat.le_add_left _ _)
  have hsame : (encodeVlogRecord value front.length gen).ptr.gen = gen := rfl
  rw [derefValue, hlsm, decode_encode hfits]
  simp only [Bool.not_true, Bool.false_eq_true, if_false, if_neg hpast, hstart, ← hlength, hsame,
    hread]
  exact vlogDeref_encodeVlogRecord hvalue _ _

/-! ### Versions and their values -/

def Keeps (e : WalEngine) (v : Entry) (value : Value) : Prop :=
  if v.vlog then e.derefValue v.value = some value else v.value = value

def Durably (e : WalEngine) (v : Entry) : Prop :=
  v.vlog = true → (e.crash.derefValue v.value).isSome

structure Pending (e : WalEngine) (v : Entry) : Prop where
  active : e.valueLogActive = true
  started : 0 < e.vlogLen
  gen : ∃ ptr, decode v.value = some ptr ∧ ptr.gen = e.vlogGen
  resolves : (e.derefValue v.value).isSome

variable {e e' : WalEngine} {v : Entry} {value : Value}

lemma Keeps.materialise_eq (h : e.Keeps v value) :
    e.materialise v = if v.tombstone then none else some value := by
  rw [Keeps] at h
  rw [materialise]
  cases hvlog : v.vlog with
  | false =>
    rw [hvlog] at h
    simp only [Bool.false_eq_true, if_false] at h ⊢
    rw [h]
  | true =>
    rw [hvlog] at h
    simp only [if_true] at h ⊢
    rw [h]

lemma Keeps.of_isPrefix (h : e.Keeps v value) (hlsm : e'.lsm = e.lsm)
    (hgrows : ∀ id, (e.factory id).image <+: (e'.factory id).image) : e'.Keeps v value := by
  rw [Keeps] at h ⊢
  split_ifs at h ⊢
  · exact derefValue_of_isPrefix hlsm (fun ptr _ ↦ hgrows ptr.gen) h
  · exact h

lemma Keeps.crash (h : e.Keeps v value) (hdurably : e.Durably v) : e.crash.Keeps v value := by
  rw [Keeps] at h ⊢
  split_ifs at h ⊢ with hvlog
  · obtain ⟨found, hfound⟩ := isSome_iff_exists.mp (hdurably hvlog)
    have hbefore : e.derefValue v.value = some found := by
      refine @derefValue_of_isPrefix e.crash e rfl _ _ (fun ptr _ ↦ ?_) hfound
      rw [crash_image]
      exact prefix_append _ _
    rw [hfound, ← hbefore, h]
  · exact h

lemma Durably.of_isPrefix (h : e.Durably v) (hlsm : e'.lsm = e.lsm)
    (hgrows : ∀ id, (e.factory id).durable <+: (e'.factory id).durable) : e'.Durably v := by
  intro hvlog
  obtain ⟨found, hfound⟩ := isSome_iff_exists.mp (h hvlog)
  refine isSome_iff_exists.mpr ⟨found, ?_⟩
  refine @derefValue_of_isPrefix e.crash e'.crash hlsm _ _ (fun ptr _ ↦ ?_) hfound
  rw [crash_image, crash_image]
  exact hgrows ptr.gen

def Held (e : WalEngine) (v : Entry) : Prop := e.Durably v ∨ e.Pending v

lemma Held.of_grows (h : e.Held v) (hlsm : e'.lsm = e.lsm) (hgrows : e.FactoryGrows e')
    (hactive : e'.valueLogActive = e.valueLogActive) (hgen : e'.vlogGen = e.vlogGen)
    (hlen : e.vlogLen ≤ e'.vlogLen) : e'.Held v := by
  refine h.imp (fun h ↦ h.of_isPrefix hlsm fun id ↦ (hgrows id).durable) fun h ↦ ?_
  obtain ⟨found, hfound⟩ := isSome_iff_exists.mp h.resolves
  exact
    { active := hactive.trans h.active
      started := h.started.trans_le hlen
      gen := hgen ▸ h.gen
      resolves := isSome_iff_exists.mpr
        ⟨found, derefValue_of_isPrefix hlsm (fun ptr _ ↦ (hgrows ptr.gen).image) hfound⟩ }

lemma Held.durably (h : e.Held v) (hlsm : e'.lsm = e.lsm) (hgrows : e.FactoryGrows e')
    (hsync : e.valueLogActive = true → 0 < e.vlogLen →
      (e.factory e.vlogGen).sync.Grows (e'.factory e.vlogGen)) : e'.Durably v := by
  rcases h with h | h
  · exact h.of_isPrefix hlsm fun id ↦ (hgrows id).durable
  intro _
  obtain ⟨ptr, hptr, hgen⟩ := h.gen
  obtain ⟨found, hfound⟩ := isSome_iff_exists.mp h.resolves
  refine isSome_iff_exists.mpr ⟨found, ?_⟩
  refine @derefValue_of_isPrefix e e'.crash hlsm _ _ (fun other hother ↦ ?_) hfound
  obtain rfl := some.inj (hptr.symm.trans hother)
  rw [crash_image, hgen]
  exact (hsync h.active h.started).durable

/-! ### Writes -/

/-- When a value goes to the value log, the engine's count of the log is right, and the fields of
the pointer have the widths of the format. -/
def SeparateFits (e : WalEngine) (value : Value) (tombstone : Bool) : Prop :=
  e.Separates value tombstone → value.length < 2 ^ 32 ∧
    (e.factory e.vlogGen).image.length = e.vlogLen ∧
    e.vlogLen + kVlogRecordHeaderBytes < 2 ^ 64 ∧ e.vlogGen < 2 ^ 64

instance (e : WalEngine) (value : Value) (tombstone : Bool) :
    Decidable (e.SeparateFits value tombstone) :=
  inferInstanceAs (Decidable (_ → _))

def WriteFits (e : WalEngine) (key : Key) (value : Value) (tombstone : Bool) : Prop :=
  e.lastSeq + 1 < 2 ^ 64 ∧ key.length < 2 ^ 32 ∧ value.length < 2 ^ 32 ∧
    e.SeparateFits value tombstone

instance (e : WalEngine) (key : Key) (value : Value) (tombstone : Bool) :
    Decidable (e.WriteFits key value tombstone) :=
  inferInstanceAs (Decidable (_ ∧ _ ∧ _ ∧ _))

variable {tombstone : Bool} {stored : Value} {isVlog : Bool} {factory : ℕ → Disk}
  {len : ℕ}

section

variable (h : Stored e value tombstone stored isVlog factory len)

include h

lemma Stored.factory_grows (id : ℕ) :
    (e.factory id).Grows (factory id) ∧ (factory id).durable = (e.factory id).durable := by
  cases h with
  | inline => exact ⟨Disk.Grows.refl _, rfl⟩
  | separated =>
    by_cases hid : id = e.vlogGen
    · subst hid
      rw [Function.update_self]
      exact ⟨Disk.Grows.append _ _, rfl⟩
    · rw [Function.update_of_ne hid]
      exact ⟨Disk.Grows.refl _, rfl⟩

lemma Stored.len_le : e.vlogLen ≤ len := by
  cases h with
  | inline => exact le_rfl
  | separated => exact Nat.le_add_right _ _

lemma Stored.factory_of_ne {id : ℕ} (hid : id ≠ e.vlogGen) : factory id = e.factory id := by
  cases h with
  | inline => rfl
  | separated => exact Function.update_of_ne hid _ _

lemma Stored.fits (hvalue : value.length < 2 ^ 32) :
    stored.length < 2 ^ 32 ∧ (tombstone = true → isVlog = false) := by
  cases h with
  | inline => exact ⟨hvalue, fun _ ↦ rfl⟩
  | separated hlarge =>
    refine ⟨?_, fun h ↦ absurd (hlarge.1.symm.trans h) nofun⟩
    simp [encode]

lemma Stored.holds (hfits : e.SeparateFits value tombstone) (hlsm : e'.lsm = true)
    (hfactory : e'.factory = factory) (hgen : e'.vlogGen = e.vlogGen) (hlen : e'.vlogLen = len)
    (hactive : e'.valueLogActive = e.valueLogActive) (hvalue : v.value = stored)
    (hvlog : v.vlog = isVlog) : e'.Keeps v value ∧ e'.Held v := by
  rw [Keeps, hvalue, hvlog]
  cases h with
  | inline => exact ⟨rfl, .inl fun h ↦ absurd (hvlog.symm.trans h) nofun⟩
  | separated hlarge =>
    obtain ⟨hsize, hcount, hoffFits, hgenFits⟩ := hfits hlarge
    have himage : (e'.factory e.vlogGen).image = (e.factory e.vlogGen).image ++
        ((encodeVlogRecord value (e.factory e.vlogGen).image.length e.vlogGen).bytes ++ []) := by
      rw [hfactory, Function.update_self, Disk.image_append, append_nil, hcount]
    have hderef := derefValue_encodeVlogRecord hlsm himage hsize (hcount ▸ hoffFits) hgenFits
    rw [hcount] at hderef
    have hptr : (encodeVlogRecord value e.vlogLen e.vlogGen).ptr.Fits :=
      ⟨hoffFits, Nat.mod_lt _ (by decide), Crc32.compute_lt _, hgenFits⟩
    refine ⟨hderef, .inr
      { active := hactive.trans hlarge.2.1
        started := ?_
        gen := ⟨_, hvalue ▸ decode_encode hptr, hgen.symm⟩
        resolves := by rw [hvalue, hderef]; rfl }⟩
    rw [hlen, length_encodeVlogRecord, kVlogRecordHeaderBytes]
    omega

end

end WalEngine

end Lockstep.Storage
