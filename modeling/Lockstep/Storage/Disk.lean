import Lockstep.Library.ByteCodec

/-!
# Disks and the outcome of I/O

An append-structured disk, as the simulator has it (`sim/SimDisk.hpp`): the bytes that survive a
crash and the bytes that were appended since the last sync. A `Script` says how the appends and
syncs of a run turn out, one after another; the honest script lets every one of them succeed.
-/

namespace Lockstep.Storage

open Library.ByteCodec List

/-- An append-only disk: what is durable, and what a crash loses. -/
structure Disk where
  durable : List UInt8 := []
  staged : List UInt8 := []
  deriving DecidableEq

namespace Disk

def image (d : Disk) : List UInt8 := d.durable ++ d.staged

def append (d : Disk) (bytes : List UInt8) : Disk := { d with staged := d.staged ++ bytes }

def sync (d : Disk) : Disk := { durable := d.durable ++ d.staged, staged := [] }

def crash (d : Disk) : Disk := { d with staged := [] }

def read (d : Disk) (off len : ℕ) : Option (List UInt8) :=
  if d.image.length < off + len then none else some (slice d.image off len)

@[simp]
lemma image_append (d : Disk) (bytes : List UInt8) :
    (d.append bytes).image = d.image ++ bytes :=
  (append_assoc ..).symm

@[simp]
lemma image_sync (d : Disk) : d.sync.image = d.image := append_nil _

@[simp]
lemma image_crash (d : Disk) : d.crash.image = d.durable := append_nil _

@[simp]
lemma durable_append (d : Disk) (bytes : List UInt8) : (d.append bytes).durable = d.durable := rfl

@[simp]
lemma durable_sync (d : Disk) : d.sync.durable = d.image := rfl

@[simp]
lemma durable_crash (d : Disk) : d.crash.durable = d.durable := rfl

lemma read_zero {d : Disk} {front rest : List UInt8} (himage : d.image = front ++ rest) :
    d.read 0 front.length = some front := by
  rw [read, himage, slice_left rfl, if_neg]
  rw [length_append]
  omega

/-- The image only grows, and so does its durable part. -/
structure Grows (d d' : Disk) : Prop where
  durable : d.durable <+: d'.durable
  image : d.image <+: d'.image

namespace Grows

variable {d d' d'' : Disk}

lemma refl (d : Disk) : d.Grows d := ⟨prefix_rfl, prefix_rfl⟩

lemma trans (h : d.Grows d') (h' : d'.Grows d'') : d.Grows d'' :=
  ⟨h.durable.trans h'.durable, h.image.trans h'.image⟩

lemma append (d : Disk) (bytes : List UInt8) : d.Grows (d.append bytes) where
  durable := prefix_rfl
  image := by
    rw [image_append]
    exact prefix_append _ _

lemma sync (d : Disk) : d.Grows d.sync where
  durable := prefix_append _ _
  image := by simp only [image_sync, prefix_rfl]

lemma of_eq_or_sync (h : d' = d ∨ d' = d.sync) : d.Grows d' := by
  rcases h with rfl | rfl
  · exact refl _
  · exact sync d

end Grows

end Disk

/-- The outcomes of the disk operations to come. -/
structure Script where
  outcomes : List Bool := []
  rest : Bool := true
  deriving DecidableEq

namespace Script

def honest : Script := {}

def cutAfter (count : ℕ) : Script := { outcomes := replicate count true, rest := false }

def next (s : Script) : Bool × Script :=
  match s.outcomes with
  | [] => (s.rest, s)
  | ok :: outcomes => (ok, { s with outcomes := outcomes })

def Halts (s : Script) : Prop := s.next.1 = false → s.next.2.next.1 = false

lemma halts_cutAfter (count : ℕ) : (cutAfter count).Halts := by
  cases count with
  | zero => exact fun _ ↦ rfl
  | succ count => exact nofun

end Script

end Lockstep.Storage
