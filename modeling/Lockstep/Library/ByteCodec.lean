import Mathlib.Algebra.Order.Ring.Nat
import Mathlib.Data.List.Basic

/-!
# Little-endian bytes and a bounds-checked reader

`putLE width value` is the little-endian encoding of a number in a fixed number of bytes, and
`getLE` the number a byte list encodes. `getAt` and `slice` read at an offset. `Reader` is a cursor
with a sticky error flag: a read past the end returns zero, moves nothing and clears the flag, which
no later read sets again.
-/

namespace Lockstep.Library.ByteCodec

open List

/-! ### Fixed-width numbers -/

/-- The low bytes of a number, least significant first. -/
def putLE : ℕ → ℕ → List UInt8
  | 0, _ => []
  | width + 1, value => UInt8.ofNat value :: putLE width (value / 256)

/-- The number a list of bytes encodes, least significant byte first. -/
def getLE : List UInt8 → ℕ
  | [] => 0
  | byte :: bytes => byte.toNat + 256 * getLE bytes

@[simp]
lemma length_putLE (width value : ℕ) : (putLE width value).length = width := by
  induction width generalizing value with
  | zero => rfl
  | succ width ih => rw [putLE, length_cons, ih]

lemma getLE_putLE (width value : ℕ) : getLE (putLE width value) = value % 256 ^ width := by
  induction width generalizing value with
  | zero => rw [putLE, getLE, pow_zero, Nat.mod_one]
  | succ width ih =>
    rw [putLE, getLE, ih, UInt8.toNat_ofNat', pow_succ' 256 width, Nat.mod_mul]

lemma putLE_mod (width value : ℕ) : putLE width (value % 256 ^ width) = putLE width value := by
  induction width generalizing value with
  | zero => rfl
  | succ width ih =>
    have hbyte : UInt8.ofNat (value % (256 * 256 ^ width)) = UInt8.ofNat value :=
      UInt8.toNat_inj.mp (by
        rw [UInt8.toNat_ofNat', UInt8.toNat_ofNat', Nat.mod_mul_right_mod])
    rw [putLE, putLE, pow_succ' 256 width, hbyte, Nat.mod_mul_right_div_self, ih]

variable (bytes : List UInt8)

lemma getLE_lt : getLE bytes < 256 ^ bytes.length := by
  induction bytes with
  | nil => exact Nat.one_pos
  | cons byte bytes ih =>
    have hbyte := byte.toNat_lt
    rw [getLE, length_cons, Nat.pow_succ]
    omega

lemma getLE_putLE_of_lt {width value : ℕ} (hvalue : value < 256 ^ width) :
    getLE (putLE width value) = value := by
  rw [getLE_putLE, Nat.mod_eq_of_lt hvalue]

/-- The number of a fixed width at an offset. -/
def getAt (width : ℕ) (bytes : List UInt8) (pos : ℕ) : ℕ := getLE ((bytes.drop pos).take width)

def slice (bytes : List UInt8) (pos len : ℕ) : List UInt8 := (bytes.drop pos).take len

variable {before : List UInt8}

lemma slice_skip {pos : ℕ} (hpos : before.length ≤ pos) (rest : List UInt8) (len : ℕ) :
    slice (before ++ rest) pos len = slice rest (pos - before.length) len := by
  rw [slice, drop_append, drop_of_length_le hpos, nil_append, slice]

lemma slice_left {len : ℕ} (hlen : len = before.length)
    (rest : List UInt8) : slice (before ++ rest) 0 len = before := by
  rw [slice, drop_zero, hlen, take_left]

lemma slice_append {pos len : ℕ} (hlen : pos + len ≤ before.length)
    (after : List UInt8) : slice (before ++ after) pos len = slice before pos len := by
  rw [slice, slice, drop_append_of_le_length (by omega), take_append_of_le_length]
  rw [length_drop]
  omega

lemma getAt_skip {pos : ℕ} (hpos : before.length ≤ pos) (rest : List UInt8) (width : ℕ) :
    getAt width (before ++ rest) pos = getAt width rest (pos - before.length) :=
  congrArg getLE (slice_skip hpos rest width)

lemma getAt_putLE {width value : ℕ} (hvalue : value < 256 ^ width) (rest : List UInt8) :
    getAt width (putLE width value ++ rest) 0 = value := by
  rw [getAt, ← slice, slice_left (length_putLE width value).symm, getLE_putLE_of_lt hvalue]

def putStr (bytes : List UInt8) : List UInt8 := putLE 4 bytes.length ++ bytes

lemma length_putStr : (putStr bytes).length = 4 + bytes.length := by
  rw [putStr, length_append, length_putLE]

/-! ### The reader -/

/-- A cursor over a byte list: what is left to read, and whether every read so far succeeded. -/
structure Reader where
  rest : List UInt8
  good : Bool := true
  deriving DecidableEq

namespace Reader

/-- Reads a number of the given width. -/
def uint (r : Reader) (width : ℕ) : ℕ × Reader :=
  if r.rest.length < width then (0, { r with good := false })
  else (getLE (r.rest.take width), { r with rest := r.rest.drop width })

def u8 (r : Reader) : ℕ × Reader := r.uint 1

def u32 (r : Reader) : ℕ × Reader := r.uint 4

def u64 (r : Reader) : ℕ × Reader := r.uint 8

/-- Reads a length-prefixed byte string; its length counts only while every read succeeded. -/
def str (r : Reader) : List UInt8 × Reader :=
  let (len, r) := r.u32
  if !r.good ∨ r.rest.length < len then ([], { r with good := false })
  else (r.rest.take len, { r with rest := r.rest.drop len })

/-- Reads a number of items with the same reader function. -/
def many {α : Type*} (item : Reader → α × Reader) : ℕ → Reader → List α × Reader
  | 0, r => ([], r)
  | count + 1, r =>
    let (first, r) := item r
    let (others, r) := many item count r
    (first :: others, r)

lemma uint_putLE (width value : ℕ) (hvalue : value < 256 ^ width) (rest : List UInt8)
    (good : Bool) :
    uint { rest := putLE width value ++ rest, good := good } width =
      (value, { rest := rest, good := good }) := by
  have htake : (putLE width value ++ rest).take width = putLE width value := by
    rw [take_append_of_le_length (length_putLE width value).ge,
      take_of_length_le (length_putLE width value).le]
  have hdrop : (putLE width value ++ rest).drop width = rest := by
    rw [drop_append, drop_of_length_le (length_putLE width value).le, length_putLE,
      Nat.sub_self, drop_zero, nil_append]
  rw [uint, if_neg, htake, hdrop, getLE_putLE_of_lt hvalue]
  simp only [length_append, length_putLE]
  omega

lemma u8_cons (byte : UInt8) (rest : List UInt8) (good : Bool) :
    u8 { rest := byte :: rest, good := good } = (byte.toNat, { rest := rest, good := good }) := by
  rw [u8, uint, if_neg (by simp)]
  simp [getLE]

lemma u32_putLE (value : ℕ) (hvalue : value < 2 ^ 32) (rest : List UInt8) (good : Bool) :
    u32 { rest := putLE 4 value ++ rest, good := good } =
      (value, { rest := rest, good := good }) :=
  uint_putLE 4 value hvalue rest good

lemma u64_putLE (value : ℕ) (hvalue : value < 2 ^ 64) (rest : List UInt8) (good : Bool) :
    u64 { rest := putLE 8 value ++ rest, good := good } =
      (value, { rest := rest, good := good }) :=
  uint_putLE 8 value hvalue rest good

lemma str_putStr (hbytes : bytes.length < 2 ^ 32) (rest : List UInt8) :
    str { rest := putStr bytes ++ rest } = (bytes, { rest := rest }) := by
  rw [str, putStr, append_assoc, u32_putLE _ hbytes]
  simp

lemma many_flatMap {α : Type*} (item : Reader → α × Reader) (put : α → List UInt8)
    (items : List α)
    (hitem : ∀ a ∈ items, ∀ rest : List UInt8,
      item { rest := put a ++ rest } = (a, { rest := rest }))
    (rest : List UInt8) :
    many item items.length { rest := items.flatMap put ++ rest } = (items, { rest := rest }) := by
  induction items with
  | nil => rfl
  | cons a items ih =>
    rw [flatMap_cons, append_assoc, length_cons, many, hitem a mem_cons_self]
    dsimp only
    rw [ih (forall_mem_cons.mp hitem).2]

end Reader

end Lockstep.Library.ByteCodec
