import Lockstep.Consensus.RaftA.Wire
import Lockstep.Consensus.RaftB.Durable

/-!
# The offsets that the frame decoders read

`raft_a::decode`, `wire::decode` and `durable::replay` of `raft_b`, with every read of the buffer
and the sums of their bounds checks in the widths of the source. The checks keep every read inside
the buffer, with one exception: the sum `8u + len` of `raft_a::decode` wraps in 32 bits
(`reads_inside_iff`).
-/

namespace Lockstep.Consensus.FrameBounds

open Library ByteCodec List RaftB.Durable

inductive Fault
  | outside
  | lengthError
  | unfinished
  deriving DecidableEq

def load (buffer : List UInt8) (off len : ℕ) : Except Fault (List UInt8) :=
  if off + len ≤ buffer.length then .ok (slice buffer off len) else .error .outside

/-! ### The readers -/

structure Cursor where
  i : ℕ := 0
  bad : Bool := false

abbrev Reads := StateT Cursor (Except Fault)

inductive Field
  | u8 | u64 | str | entries | members

structure Reader where
  buffer : List UInt8
  base : ℕ
  n : ℕ
  width : ℕ
  refuses : Bool

namespace Reader

variable (r : Reader)

def uint (width : ℕ) : Reads ℕ := fun c ↦
  if r.n < (c.i + width) % 2 ^ 64 then .ok (0, { c with bad := true })
  else do return (getLE (← load r.buffer (r.base + c.i) width), { c with i := c.i + width })

def str : Reads Unit := do
  let len ← r.uint r.width
  fun c ↦
    if c.bad ∨ r.n < (c.i + len) % 2 ^ 64 then .ok ((), { c with bad := true })
    else if 2 ^ 63 ≤ len then .error .lengthError
    else do
      let _ ← load r.buffer (r.base + c.i) len
      return ((), { c with i := c.i + len })

def repeated (item : Reads Unit) : ℕ → Reads Unit
  | 0 => pure ()
  | count + 1 => do
    if r.refuses ∨ !(← get).bad then
      item
      repeated item count

def counted (item : Reads Unit) : Reads Unit := do
  let count ← r.uint r.width
  let c ← get
  if r.refuses ∧ (c.bad ∨ r.n < count) then set { c with bad := true }
  else r.repeated item count

def field : Field → Reads Unit
  | .u8 => do let _ ← r.uint 1
  | .u64 => do let _ ← r.uint 8
  | .str => r.str
  | .entries => r.counted do
    let _ ← r.uint 8
    r.str
  | .members => r.counted do let _ ← r.uint 8

def body (fields : ℕ → List Field) : Except Fault Unit := do
  let (tag, c) ← r.uint 1 {}
  let _ ← (fields tag).forM r.field c

end Reader

/-! ### The decoders -/

def messageFields : ℕ → List Field
  | 1 => [.u64, .u64, .u64]
  | 2 => [.u8]
  | 3 => [.u64, .u64, .u64, .entries]
  | 4 => [.u8, .u64]
  | 5 => [.u64, .entries]
  | 6 | 8 => [.u64]
  | 7 => [.u64, .members]
  | _ => []

def decodeA (buffer : List UInt8) : Except Fault Unit :=
  if buffer.length < 8 then .ok ()
  else do
    let crc ← load buffer 0 4
    let len := getLE (← load buffer 4 4)
    if buffer.length < (8 + len) % 2 ^ 32 then return
    if (RaftA.crc32 (← load buffer 8 len)).toNat ≠ getLE crc then return
    Reader.body ⟨buffer, 8, len, 4, true⟩ fun tag ↦ replicate 4 .u64 ++ messageFields tag

def decodeB (payload : List UInt8) : Except Fault Unit :=
  if payload.length < 5 then .ok ()
  else do
    let n := payload.length - 4
    let want ← load payload n 4
    if (crc32 (← load payload 0 n)).toNat ≠ getLE want then return
    Reader.body ⟨payload, 0, n, 8, false⟩ fun tag ↦ replicate 2 .u64 ++ messageFields tag

def deltaFollows (rec : Recovered) (body : List UInt8) : Bool :=
  let (fromBase, r) := readU64 { rest := body.drop 1 }
  let (toBase, r) := readU64 r
  let (count, r) := readU64 r
  r.good ∧ fromBase = rec.snapBase ∧ fromBase ≤ toBase ∧ count = toBase - fromBase

def recordFields (rec : Recovered) (body : List UInt8) : ℕ → List Field
  | 1 => [.u64, .u8, .u64]
  | 2 => [.u64]
  | 3 => [.u64, .u64, .str]
  | 4 => [.u64, .entries]
  | 5 => [.u64, .members]
  | 6 => [.u64, .u64, if deltaFollows rec body then .entries else .u64]
  | _ => []

def replayFrom (image : List UInt8) : ℕ → ℕ → Recovered → Except Fault Recovered
  | 0, _, _ => .error .unfinished
  | fuel + 1, i, rec =>
    if image.length ≤ i ∨ image.length < (i + 4) % 2 ^ 64 then .ok rec
    else do
      let blen := getLE (← load image i 4)
      if image.length < (i + 4 + blen + 4) % 2 ^ 64 then return rec
      let want ← load image (i + 4 + blen) 4
      let body ← load image (i + 4) blen
      if blen = 0 ∨ (crc32 body).toNat ≠ getLE want then return rec
      Reader.body ⟨image, i + 4, blen, 8, false⟩ (recordFields rec body)
      match replayBody rec body with
      | none => return rec
      | some rec => replayFrom image fuel (i + 4 + blen + 4) rec

def replay (image : List UInt8) : Except Fault Recovered :=
  replayFrom image (image.length + 1) 0 {}

/-! ### The reads are inside -/

def Ends {α : Type} (x : Except Fault α) (post : α → Prop) : Prop :=
  x = .error .lengthError ∨ ∃ a, x = .ok a ∧ post a

variable {α β : Type}

lemma Ends.bind {x : Except Fault α} {f : α → Except Fault β} {P : α → Prop} {Q : β → Prop}
    (hx : Ends x P) (hf : ∀ a, P a → Ends (f a) Q) : Ends (x >>= f) Q := by
  obtain rfl | ⟨a, rfl, ha⟩ := hx
  · exact .inl rfl
  · exact hf a ha

lemma ends_ok {a : α} {P : α → Prop} (ha : P a) : Ends (.ok a) P := .inr ⟨a, rfl, ha⟩

lemma ends_load {buffer : List UInt8} {off len : ℕ} (hin : off + len ≤ buffer.length) :
    Ends (load buffer off len) fun bytes ↦ bytes.length = len := by
  rw [load, if_pos hin]
  refine ends_ok ?_
  rw [slice, length_take, length_drop]
  omega

namespace Reader

/-- The reader is inside its buffer, and the buffer is no larger than an object can be. -/
structure Placed (r : Reader) : Prop where
  inside : r.base + r.n ≤ r.buffer.length
  small : r.buffer.length < 2 ^ 63
  width : r.width ≤ 8

def Within (r : Reader) (x : Reads α) : Prop :=
  ∀ c : Cursor, c.i ≤ r.n → Ends (x c) fun p ↦ p.2.i ≤ r.n

variable {r : Reader}

lemma Within.bind {x : Reads α} {f : α → Reads β} (hx : r.Within x) (hf : ∀ a, r.Within (f a)) :
    r.Within (x >>= f) :=
  fun c hc ↦ (hx c hc).bind fun p hp ↦ hf p.1 p.2 hp

lemma within_uint (hr : r.Placed) {width : ℕ} (hwidth : width ≤ 8) : r.Within (r.uint width) := by
  intro c hc
  obtain ⟨hinside, hsmall, -⟩ := hr
  rw [uint]
  split_ifs with hcheck
  · exact ends_ok hc
  · have hend : c.i + width ≤ r.n := by omega
    exact (ends_load (by omega)).bind fun bytes _ ↦ ends_ok hend

lemma within_str (hr : r.Placed) : r.Within r.str := by
  refine (within_uint hr hr.width).bind fun len c hc ↦ ?_
  obtain ⟨hinside, hsmall, -⟩ := hr
  split_ifs with hcheck hlong
  · exact ends_ok hc
  · exact .inl rfl
  · have hend : c.i + len ≤ r.n := by omega
    exact (ends_load (by omega)).bind fun bytes _ ↦ ends_ok hend

lemma within_repeated {item : Reads Unit} (hitem : r.Within item) (count : ℕ) :
    r.Within (r.repeated item count) := by
  induction count with
  | zero => exact fun c hc ↦ ends_ok hc
  | succ count ih =>
    intro c hc
    change Ends ((ite _ _ _ : Reads Unit) c) _
    split_ifs
    · exact hitem.bind (fun _ ↦ ih) c hc
    · exact ends_ok hc

lemma within_counted (hr : r.Placed) {item : Reads Unit} (hitem : r.Within item) :
    r.Within (r.counted item) := by
  refine (within_uint hr hr.width).bind fun count c hc ↦ ?_
  change Ends ((ite _ _ _ : Reads Unit) c) _
  split_ifs
  · exact ends_ok hc
  · exact within_repeated hitem count c hc

lemma within_field (hr : r.Placed) (f : Field) : r.Within (r.field f) := by
  have hunit : r.Within (pure ()) := fun c hc ↦ ends_ok hc
  have hu64 := within_uint hr (le_refl 8)
  cases f with
  | u8 => exact (within_uint hr (by decide)).bind fun _ ↦ hunit
  | u64 => exact hu64.bind fun _ ↦ hunit
  | str => exact within_str hr
  | entries => exact within_counted hr (hu64.bind fun _ ↦ within_str hr)
  | members => exact within_counted hr (hu64.bind fun _ ↦ hunit)

lemma ends_body (hr : r.Placed) (fields : ℕ → List Field) :
    Ends (r.body fields) ⊤ := by
  have hfields : ∀ fs : List Field, r.Within (fs.forM r.field) := fun fs ↦ by
    induction fs with
    | nil => exact fun c hc ↦ ends_ok hc
    | cons f fs ih => exact (within_field hr f).bind fun _ ↦ ih
  refine (within_uint hr (by decide) {} (Nat.zero_le _)).bind fun p hp ↦ ?_
  exact (hfields _ p.2 hp).bind fun _ _ ↦ ends_ok trivial

end Reader

section Decoders

variable {buffer : List UInt8} (hsize : buffer.length < 2 ^ 63)
include hsize

lemma ends_decodeB : Ends (decodeB buffer) ⊤ := by
  rw [decodeB]
  split_ifs with hshort
  · exact ends_ok trivial
  · refine (ends_load (by omega)).bind fun want _ ↦ (ends_load (by omega)).bind fun body _ ↦ ?_
    split_ifs
    · exact ends_ok trivial
    · exact Reader.ends_body ⟨by simp, hsize, le_rfl⟩ _

lemma ends_replayFrom {fuel i : ℕ} (hfuel : buffer.length < i + fuel) (hi : i ≤ buffer.length)
    (rec : Recovered) : Ends (replayFrom buffer fuel i rec) ⊤ := by
  induction fuel generalizing i rec with
  | zero => omega
  | succ fuel ih =>
    rw [replayFrom]
    split_ifs with hstop
    · exact ends_ok trivial
    refine (ends_load (by omega)).bind fun lenBytes hlen ↦ ?_
    have hblen := getLE_lt lenBytes
    rw [hlen] at hblen
    dsimp only
    split_ifs with hcut
    · exact ends_ok trivial
    refine (ends_load (by omega)).bind fun want _ ↦ (ends_load (by omega)).bind fun body _ ↦ ?_
    split_ifs
    · exact ends_ok trivial
    refine (Reader.ends_body ⟨by dsimp only; omega, hsize, le_rfl⟩ _).bind fun _ _ ↦ ?_
    cases replayBody rec body with
    | none => exact ends_ok trivial
    | some rec => exact ih (by omega) (by omega) rec

lemma ends_decodeA_iff : (Ends (decodeA buffer) ⊤) ↔
    buffer.length < 8 ∨ getAt 4 buffer 4 + 8 < 2 ^ 32 ∨ getAt 4 buffer 4 + 8 ≤ buffer.length := by
  have hread : getLE (slice buffer 4 4) = getAt 4 buffer 4 := rfl
  have hlen : getAt 4 buffer 4 < 256 ^ 4 :=
    (getLE_lt _).trans_le (Nat.pow_le_pow_right (by decide) (length_take_le 4 _))
  rw [decodeA]
  split_ifs with hshort
  · exact iff_of_true (ends_ok trivial) (.inl hshort)
  rw [load, if_pos (by omega), load, if_pos (by omega)]
  change Ends (ite _ _ _) _ ↔ _
  rw [hread]
  split_ifs with hcut
  · exact iff_of_true (ends_ok trivial) (by omega)
  by_cases hheld : 8 + getAt 4 buffer 4 ≤ buffer.length
  · refine iff_of_true ((ends_load hheld).bind fun body _ ↦ ?_) (by omega)
    split_ifs
    · exact ends_ok trivial
    · exact Reader.ends_body ⟨hheld, hsize, Nat.le_of_ble_eq_true rfl⟩ _
  · refine iff_of_false ?_ (by omega)
    rw [load, if_neg hheld]
    rintro (h | ⟨_, h, _⟩) <;> cases h

end Decoders

/-- The decoders read inside the buffer and end, unless the length field of a frame of
implementation A is within 8 of `2 ^ 32` and the frame does not hold that many bytes. -/
theorem reads_inside_iff (buffer : List UInt8) (hsize : buffer.length < 2 ^ 63) :
    ((Ends (decodeA buffer) ⊤) ∧ (Ends (decodeB buffer) ⊤) ∧
      Ends (replay buffer) ⊤) ↔
    buffer.length < 8 ∨ getAt 4 buffer 4 + 8 < 2 ^ 32 ∨ getAt 4 buffer 4 + 8 ≤ buffer.length := by
  rw [← ends_decodeA_iff hsize]
  exact and_iff_left ⟨ends_decodeB hsize, ends_replayFrom hsize (by omega) (Nat.zero_le _) {}⟩

def appendFrame : List UInt8 :=
  RaftA.RaftMsg.encode { type := .appendEntries, term := 2, source := 1, entries := [⟨2, [7]⟩] }

theorem reads_inside_append :
    getAt 4 appendFrame 4 + 8 = appendFrame.length ∧
      RaftA.decode appendFrame =
        .msg { type := .appendEntries, term := 2, source := 1, entries := [⟨2, [7]⟩] } ∧
      (Ends (decodeA appendFrame) ⊤) ∧ (Ends (decodeB appendFrame) ⊤) ∧
      Ends (replay appendFrame) ⊤ := by
  have hlen : getAt 4 appendFrame 4 + 8 = appendFrame.length := by decide +kernel
  refine ⟨hlen, by decide +kernel, ?_⟩
  exact (reads_inside_iff appendFrame (by decide +kernel)).mpr (.inr (.inr hlen.le))

/-- A header alone, with the length `2 ^ 32 - 8`. -/
theorem decodeA_wide_header : decodeA [0, 0, 0, 0, 0xf8, 0xff, 0xff, 0xff] = .error .outside := by
  decide

end Lockstep.Consensus.FrameBounds
