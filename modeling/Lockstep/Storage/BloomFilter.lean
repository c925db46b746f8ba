import Lockstep.Storage.Codec

/-!
# The Bloom filter of an SSTable

The filter of `storage/SSTable.hpp`: seven bit positions per key, computed from two 64-bit hashes.
When the rounding wraps, the bit array is shorter than the positions need (`SizeFits` fails), and a
write outside the array, which the source does not guard, is modelled as no write.
-/

namespace Lockstep.Storage

open Library.ByteCodec List

structure BloomFilter where
  nbits : ℕ := 0
  nhash : ℕ := 0
  bits : List UInt8 := []
  deriving DecidableEq

namespace BloomFilter

def hashPair (key : Key) : UInt64 × UInt64 :=
  let (a, b) := key.foldl
    (fun (a, b) byte ↦ ((a ^^^ byte.toUInt64) * (0x100000001B3 : UInt64),
      (b ^^^ byte.toUInt64) * (0xCBF29CE484222325 : UInt64)))
    ((0xCBF29CE484222325 : UInt64), (0x100000001B3 : UInt64))
  let a := (a ^^^ (a >>> 33)) * (0xFF51AFD7ED558CCD : UInt64)
  let b := (b ^^^ (b >>> 29)) * (0xC2B2AE3D27D4EB4F : UInt64)
  (a ^^^ (a >>> 33), (b ^^^ (b >>> 32)) ||| 1)

def position (nbits : ℕ) (key : Key) (i : ℕ) : ℕ :=
  ((hashPair key).1 + UInt64.ofNat i * (hashPair key).2).toNat % nbits

def mask (pos : ℕ) : UInt8 := 1 <<< UInt8.ofNat (pos % 8)

def setBit (bits : List UInt8) (pos : ℕ) : List UInt8 := bits.modify (pos / 8) (· ||| mask pos)

def testBit (bits : List UInt8) (pos : ℕ) : Bool := bits.getD (pos / 8) 0 &&& mask pos ≠ 0

def add (bf : BloomFilter) (key : Key) : BloomFilter :=
  { bf with
    bits := (range bf.nhash).foldl (fun bits i ↦ setBit bits (position bf.nbits key i))
      bf.bits }

def bitCount (keys : ℕ) : ℕ :=
  let nbits := keys % 2 ^ 32 * 10 % 2 ^ 32
  if nbits < 64 then 64 else nbits

def build (keys : List Key) : BloomFilter :=
  let nbits := bitCount keys.length
  keys.foldl add
    { nbits := nbits, nhash := 7, bits := replicate ((nbits + 7) % 2 ^ 32 / 8) 0 }

def maybeContains (bf : BloomFilter) (key : Key) : Bool :=
  if bf.nbits = 0 then true
  else (range bf.nhash).all fun i ↦ testBit bf.bits (position bf.nbits key i)

def encode (bf : BloomFilter) : List UInt8 := putU32 bf.nbits ++ (putU32 bf.nhash ++ bf.bits)

def decode (payload : List UInt8) : Option BloomFilter :=
  if payload.length < 8 then none
  else
    let nbits := getU32 payload 0
    let nhash := getU32 payload 4
    let want := (nbits + 7) / 8
    if payload.length - 8 < want ∨ nbits = 0 ∨ nhash = 0 then none
    else some { nbits := nbits, nhash := nhash, bits := slice payload 8 want }

/-- Rounding the bits up to bytes does not wrap. -/
def SizeFits (keys : ℕ) : Prop := bitCount keys + 7 < 2 ^ 32

instance (keys : ℕ) : Decidable (SizeFits keys) := inferInstanceAs (Decidable (_ < _))

@[simp]
lemma length_setBit (bits : List UInt8) (pos : ℕ) : (setBit bits pos).length = bits.length :=
  length_modify ..

lemma mask_ne_zero (pos : ℕ) : mask pos ≠ 0 := by
  have hmask : ∀ r : Fin 8, (1 : UInt8) <<< UInt8.ofNat r ≠ 0 := by decide
  exact hmask ⟨pos % 8, Nat.mod_lt pos (by decide)⟩

lemma or_and_distrib (first second mask : UInt8) :
    (first ||| second) &&& mask = (first &&& mask) ||| (second &&& mask) := by
  apply UInt8.eq_of_toBitVec_eq
  simp only [UInt8.toBitVec_and, UInt8.toBitVec_or, BitVec.and_or_distrib_right]

variable {bits : List UInt8} {pos : ℕ}

lemma testBit_setBit_self (hpos : pos / 8 < bits.length) :
    testBit (setBit bits pos) pos = true := by
  have hset : (setBit bits pos).getD (pos / 8) 0 = bits[pos / 8] ||| mask pos := by
    rw [getD_eq_getElem?_getD, setBit, getElem?_modify, getElem?_eq_getElem hpos]
    simp
  rw [testBit, hset, or_and_distrib, UInt8.and_self]
  simp [mask_ne_zero pos]

lemma testBit_setBit_of_testBit (other : ℕ)
    (h : testBit bits pos = true) : testBit (setBit bits other) pos = true := by
  have hlength : pos / 8 < bits.length := by
    by_contra hge
    rw [testBit, getD_eq_getElem?_getD, getElem?_eq_none (Nat.le_of_not_lt hge)] at h
    simp at h
  rw [testBit, getD_eq_getElem?_getD, getElem?_eq_getElem hlength, Option.getD_some] at h
  have hset : (setBit bits other).getD (pos / 8) 0 =
      if other / 8 = pos / 8 then bits[pos / 8] ||| mask other else bits[pos / 8] := by
    rw [getD_eq_getElem?_getD, setBit, getElem?_modify, getElem?_eq_getElem hlength]
    simp
  rw [testBit, hset]
  split_ifs
  · rw [or_and_distrib]
    simp only [ne_eq, decide_eq_true_eq, UInt8.or_eq_zero_iff, not_and] at h ⊢
    exact fun hzero ↦ absurd hzero h
  · exact h

lemma testBit_foldl_setBit {positions : List ℕ}
    (h : testBit bits pos = true ∨ pos ∈ positions ∧ pos / 8 < bits.length) :
    testBit (positions.foldl setBit bits) pos = true := by
  induction positions generalizing bits with
  | nil => exact h.resolve_right fun hmem ↦ not_mem_nil hmem.1
  | cons first positions ih =>
    apply ih
    rcases h with hset | ⟨hmem, hlength⟩
    · exact .inl (testBit_setBit_of_testBit first hset)
    · rcases mem_cons.mp hmem with rfl | hmem
      · exact .inl (testBit_setBit_self hlength)
      · exact .inr ⟨hmem, by rwa [length_setBit]⟩

/-! ### Building -/

lemma add_bits (bf : BloomFilter) (key : Key) :
    (bf.add key).bits =
      ((range bf.nhash).map (position bf.nbits key)).foldl setBit bf.bits := by
  rw [add, foldl_map]

lemma length_add_bits (bf : BloomFilter) (key : Key) :
    (bf.add key).bits.length = bf.bits.length := by
  rw [add_bits]
  generalize (range bf.nhash).map (position bf.nbits key) = positions
  generalize bf.bits = bits
  induction positions generalizing bits with
  | nil => rfl
  | cons first positions ih => rw [foldl_cons, ih, length_setBit]

def Roomy (bf : BloomFilter) : Prop := 0 < bf.nbits ∧ (bf.nbits + 7) / 8 ≤ bf.bits.length

variable {bf : BloomFilter}

lemma Roomy.add (h : bf.Roomy) (key : Key) : (bf.add key).Roomy :=
  ⟨h.1, by rw [length_add_bits]; exact h.2⟩

lemma Roomy.maybeContains_add_self (h : bf.Roomy) (key : Key) :
    (bf.add key).maybeContains key = true := by
  have hnbits : (bf.add key).nbits ≠ 0 := Nat.ne_of_gt h.1
  rw [maybeContains, if_neg hnbits, all_eq_true]
  intro i hi
  rw [add_bits]
  refine testBit_foldl_setBit (.inr ⟨mem_map_of_mem hi, ?_⟩)
  have hlt : position bf.nbits key i < bf.nbits := Nat.mod_lt _ h.1
  have hroom := h.2
  change position bf.nbits key i / 8 < _
  omega

variable {key : Key}

lemma maybeContains_add_of_maybeContains (other : Key)
    (h : bf.maybeContains key = true) : (bf.add other).maybeContains key = true := by
  rw [maybeContains] at h ⊢
  by_cases hbits : (bf.add other).nbits = 0
  · exact if_pos hbits
  rw [if_neg (show bf.nbits ≠ 0 from hbits), all_eq_true] at h
  rw [if_neg hbits, all_eq_true]
  intro i hi
  rw [add_bits]
  exact testBit_foldl_setBit (.inl (h i hi))

lemma maybeContains_foldl_add (h : bf.Roomy) {keys : List Key}
    (hkey : bf.maybeContains key = true ∨ key ∈ keys) :
    (keys.foldl add bf).maybeContains key = true := by
  induction keys generalizing bf with
  | nil => exact hkey.resolve_right not_mem_nil
  | cons first keys ih =>
    apply ih (h.add first)
    rcases hkey with hset | hmem
    · exact .inl (maybeContains_add_of_maybeContains first hset)
    · rcases mem_cons.mp hmem with rfl | hmem
      · exact .inl (h.maybeContains_add_self key)
      · exact .inr hmem

lemma bitCount_pos (keys : ℕ) : 0 < bitCount keys := by
  simp only [bitCount]
  split_ifs <;> omega

lemma bitCount_lt (keys : ℕ) : bitCount keys < 2 ^ 32 := by
  have hlt : keys % 2 ^ 32 * 10 % 2 ^ 32 < 2 ^ 32 := Nat.mod_lt _ (by decide)
  simp only [bitCount]
  split_ifs <;> omega

lemma maybeContains_build {keys : List Key} (hfits : SizeFits keys.length)
    (hkey : key ∈ keys) : (build keys).maybeContains key = true := by
  refine maybeContains_foldl_add ⟨bitCount_pos _, ?_⟩ (.inr hkey)
  rw [SizeFits] at hfits
  simp only [length_replicate, Nat.mod_eq_of_lt hfits, le_refl]

/-! ### The payload -/

lemma foldl_add_fields (bf : BloomFilter) (keys : List Key) :
    (keys.foldl add bf).nbits = bf.nbits ∧ (keys.foldl add bf).nhash = bf.nhash ∧
      (keys.foldl add bf).bits.length = bf.bits.length := by
  induction keys generalizing bf with
  | nil => exact ⟨rfl, rfl, rfl⟩
  | cons key keys ih =>
    obtain ⟨hbits, hhash, hlength⟩ := ih (bf.add key)
    exact ⟨hbits, hhash, hlength.trans (length_add_bits bf key)⟩

lemma build_fields (keys : List Key) :
    (build keys).nbits = bitCount keys.length ∧ (build keys).nhash = 7 ∧
      (build keys).bits.length = (bitCount keys.length + 7) % 2 ^ 32 / 8 := by
  obtain ⟨hbits, hhash, hlength⟩ := foldl_add_fields
    { nbits := bitCount keys.length, nhash := 7,
      bits := replicate ((bitCount keys.length + 7) % 2 ^ 32 / 8) 0 } keys
  exact ⟨hbits, hhash, hlength.trans length_replicate⟩

lemma maybeContains_build_eq_false {keys : List Key} (hwraps : ¬ SizeFits keys.length) :
    (build keys).maybeContains key = false := by
  obtain ⟨hnbits, hnhash, hlength⟩ := build_fields keys
  have hpos := bitCount_pos keys.length
  have hlt := bitCount_lt keys.length
  have hnil : (build keys).bits = [] := by
    rw [SizeFits] at hwraps
    exact eq_nil_of_length_eq_zero (by omega)
  rw [maybeContains, hnbits, hnhash, hnil, if_neg hpos.ne', all_eq_false]
  exact ⟨0, by decide, by simp [testBit]⟩

lemma length_encode (bf : BloomFilter) : bf.encode.length = 8 + bf.bits.length := by
  simp only [encode, length_append, length_putU32]
  omega

lemma decode_encode_build (keys : List Key) :
    decode (build keys).encode =
      if SizeFits keys.length then some (build keys) else none := by
  obtain ⟨hnbits, hnhash, hlength⟩ := build_fields keys
  have hbits := bitCount_pos keys.length
  have hlt := bitCount_lt keys.length
  have hread : getU32 (build keys).encode 0 = bitCount keys.length := by
    rw [encode, hnbits]
    exact getU32_putU32 hlt _
  have hhash : getU32 (build keys).encode 4 = 7 := by
    rw [encode, getU32_skip (length_putU32 _).le, length_putU32, hnhash]
    exact getU32_putU32 (by decide) _
  rw [decode, if_neg (by rw [length_encode]; omega), hread, hhash]
  by_cases hfits : SizeFits keys.length
  · rw [if_pos hfits]
    rw [Nat.mod_eq_of_lt hfits] at hlength
    have hslice : slice (build keys).encode 8 ((bitCount keys.length + 7) / 8) =
        (build keys).bits := by
      simp (disch := simp) only [encode, slice_skip, length_putU32, ← hlength]
      exact take_length
    rw [if_neg (by rw [length_encode, hlength]; omega), hslice, ← hnbits, ← hnhash]
  · rw [if_neg hfits]
    have hshort : (build keys).bits.length = 0 := by
      rw [SizeFits] at hfits
      rw [hlength]
      omega
    rw [if_pos (by rw [length_encode, hshort]; omega)]

/-- A filter is read back as it was built exactly when its size does not wrap, and one that is read
back denies none of its keys. -/
theorem read_filter_keeps_keys (keys : List Key) :
    decode (build keys).encode = (if SizeFits keys.length then some (build keys) else none) ∧
      (decode (build keys).encode).all (fun bf ↦ keys.all bf.maybeContains) = true := by
  refine ⟨decode_encode_build keys, ?_⟩
  rw [decode_encode_build]
  split_ifs with hfits
  · exact all_eq_true.mpr fun key hkey ↦ maybeContains_build hfits hkey
  · rfl

end BloomFilter

end Lockstep.Storage
