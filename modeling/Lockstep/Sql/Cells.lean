import Mathlib
import Lockstep.Sql.Like
import Lockstep.Sql.RowCodec
import Lockstep.Storage.Codec

/-!
# Values and how they compare

A value of `query/sql/Catalog.hpp` is an integer or bytes, with a tag for the logical type that it
stands for. `cmp_datum` of `query/sql/Engine.hpp` orders two of them: bytes that stand for an array
by the elements, bytes that stand for a REAL by the number, other bytes and integers as they are.
-/

namespace Lockstep.Sql.Cells

open List RowCodec

inductive CmpOp
  | eq | ne | lt | le | gt | ge | like | contains
  deriving DecidableEq

/-- A value that is not NULL. -/
structure Cell where
  isText : Bool
  i : BitVec 64 := 0
  s : List UInt8 := []
  logical : ℕ := 0
  deriving DecidableEq

abbrev Datum := Option Cell

/-- The comparisons that look into a payload. -/
structure Formats where
  arrayCmp : List UInt8 → List UInt8 → Ordering
  realCmp : List UInt8 → List UInt8 → Ordering
  decodeArray : List UInt8 → List Datum
  likeMatch : List UInt8 → List UInt8 → Bool
  jsonContains : List UInt8 → List UInt8 → Bool

variable (F : Formats)

def threeWay {α : Type} [LinearOrder α] (a b : α) : Ordering := cmp a b

def cmpDatum : Datum → Datum → Ordering
  | none, none => .eq
  | none, some _ => .lt
  | some _, none => .gt
  | some a, some b =>
    if a.logical = 7 ∧ b.logical = 7 then F.arrayCmp a.s b.s
    else if a.logical = 14 ∧ b.logical = 14 then F.realCmp a.s b.s
    else if a.isText then threeWay a.s b.s
    else threeWay a.i.toInt b.i.toInt

def applyCmp (op : CmpOp) (c : Ordering) : Bool :=
  match op with
  | .eq => c = .eq
  | .ne => c ≠ .eq
  | .lt => c = .lt
  | .le => c ≠ .gt
  | .gt => c = .gt
  | .ge => c ≠ .lt
  | .like | .contains => false

def leafTruth (op : CmpOp) (lhs rhs : Cell) : Bool :=
  match op with
  | .like => lhs.isText && rhs.isText && F.likeMatch lhs.s rhs.s
  | .contains => lhs.isText && rhs.isText && F.jsonContains lhs.s rhs.s
  | _ => applyCmp op (cmpDatum F (some lhs) (some rhs))

lemma leafTruth_eq {op : CmpOp} (h : op ≠ .like ∧ op ≠ .contains) (lhs rhs : Cell) :
    leafTruth F op lhs rhs = applyCmp op (cmpDatum F (some lhs) (some rhs)) := by
  cases op with
  | like => exact absurd rfl h.1
  | contains => exact absurd rfl h.2
  | _ => rfl

/-! ### The engine's formats -/

/-- An element of an array and the bytes behind it. -/
def element (logical : ℕ) : List UInt8 → Option (Datum × List UInt8)
  | [] => none
  | tag :: bytes =>
    if tag = 0 then some (none, bytes)
    else if tag = 1 then
      let i := BitVec.ofNat 64 (getBE (bytes.take 8))
      some (some { isText := false, i := i, logical := logical }, bytes.drop 8)
    else
      let len := getBE (bytes.take 4)
      let s := (bytes.drop 4).take len
      some (some { isText := true, s := s, logical := logical }, (bytes.drop 4).drop len)

def elements (logical : ℕ) : ℕ → List UInt8 → List Datum
  | 0, _ => []
  | n + 1, bytes =>
    match element logical bytes with
    | none => []
    | some (d, rest) => d :: elements logical n rest

def decodeArray (s : List UInt8) : List Datum :=
  if s.length < 6 then []
  else elements (s.headD 0).toNat (getBE ((s.drop 2).take 4)) (s.drop 6)

/-- The bits of a double, the low byte first. -/
def realBits (s : List UInt8) : ℕ := getBE (s.take 8).reverse

/-- All bits of the exponent are set, and one of the fraction. -/
def isNan (bits : ℕ) : Bool := 2047 * 2 ^ 52 < bits % 2 ^ 63

/-- The sign and the other bits as a number: in the order of the doubles that are not NaN. -/
def realKey (bits : ℕ) : ℤ := if bits < 2 ^ 63 then bits else 2 ^ 63 - bits

def realCmp (a b : List UInt8) : Ordering :=
  let x := realBits a
  let y := realBits b
  if isNan x || isNan y then if isNan x = isNan y then .eq else if isNan x then .gt else .lt
  else threeWay (realKey x) (realKey y)

variable (json : List UInt8 → List UInt8 → Bool)

/-- The formats with arrays of a bounded depth. -/
def formatsAt : ℕ → Formats
  | 0 => ⟨fun _ _ ↦ .eq, realCmp, decodeArray, Like.likeMatch, json⟩
  | depth + 1 =>
    ⟨fun a b ↦ (decodeArray a).compareLex (cmpDatum (formatsAt depth)) (decodeArray b), realCmp,
      decodeArray, Like.likeMatch, json⟩

/-- The formats of the engine. An array is no deeper than it has bytes. -/
def engineFormats : Formats :=
  ⟨fun a b ↦ (formatsAt json (a.length + 1)).arrayCmp a b, realCmp, decodeArray, Like.likeMatch,
    json⟩

lemma length_elements_le {logical n : ℕ} {bytes : List UInt8} {d : Cell}
    (h : some d ∈ elements logical n bytes) : d.s.length ≤ bytes.length := by
  induction n generalizing bytes with
  | zero => cases h
  | succ n ih =>
    cases bytes with
    | nil => cases h
    | cons tag bytes =>
      rw [elements, element] at h
      split_ifs at h <;> dsimp only at h <;> rcases mem_cons.mp h with heq | h
      all_goals first
        | cases heq
        | have := ih h
      all_goals simp only [length_cons, length_drop, length_take, length_nil] at *
      all_goals omega

lemma length_lt_of_mem_decodeArray {s : List UInt8} {d : Cell} (h : some d ∈ decodeArray s) :
    d.s.length < s.length := by
  rw [decodeArray] at h
  split_ifs at h with hshort
  · cases h
  · have := length_elements_le h
    rw [length_drop] at this
    omega

lemma compareLex_congr {α : Type} {f g : α → α → Ordering} {as : List α}
    (h : ∀ a ∈ as, f a = g a) (bs : List α) : as.compareLex f bs = as.compareLex g bs := by
  induction as generalizing bs with
  | nil => cases bs <;> rfl
  | cons a as ih =>
    cases bs with
    | nil => rfl
    | cons b bs =>
      obtain ⟨ha, has⟩ := forall_mem_cons.mp h
      rw [List.compareLex_cons_cons, List.compareLex_cons_cons, ha, ih has]

variable {json}

lemma cmpDatum_congr {F' : Formats} (hreal : F.realCmp = F'.realCmp) {a : Datum}
    (harray : ∀ c, a = some c → F.arrayCmp c.s = F'.arrayCmp c.s) :
    cmpDatum F a = cmpDatum F' a := by
  funext b
  cases a <;> cases b <;> simp [cmpDatum, hreal, harray]

/-- More depth than an array has bytes changes nothing. -/
lemma arrayCmp_formatsAt {n m : ℕ} {a : List UInt8} (hn : a.length < n) (hm : a.length < m) :
    (formatsAt json n).arrayCmp a = (formatsAt json m).arrayCmp a := by
  induction n generalizing m a with
  | zero => cases hn
  | succ n ih =>
    cases m with
    | zero => cases hm
    | succ m =>
      funext b
      refine compareLex_congr (fun d hd ↦ cmpDatum_congr _ ?_ fun c hc ↦ ?_) _
      · cases n <;> cases m <;> rfl
      · have hlt := length_lt_of_mem_decodeArray (hc ▸ hd)
        exact ih (by omega) (by omega)

/-- The recursion of `cmp_datum` into arrays. -/
lemma arrayCmp_engineFormats (a b : List UInt8) :
    (engineFormats json).arrayCmp a b =
      (decodeArray a).compareLex (cmpDatum (engineFormats json)) (decodeArray b) := by
  refine compareLex_congr (fun d hd ↦ cmpDatum_congr _ ?_ fun c hc ↦ ?_) _
  · cases a.length <;> rfl
  · have hlt := length_lt_of_mem_decodeArray (hc ▸ hd)
    exact arrayCmp_formatsAt hlt (Nat.lt_succ_self _)

/-! ### The order of the values -/

/-- The number that a REAL stands for, up to an order embedding, with NaN above all. -/
def realValue (s : List UInt8) : WithTop ℤ :=
  if isNan (realBits s) then ⊤ else realKey (realBits s)

lemma realCmp_eq (a b : List UInt8) : realCmp a b = threeWay (realValue a) (realValue b) := by
  rw [realCmp, realValue, realValue]
  cases isNan (realBits a) <;> cases isNan (realBits b) <;>
    simp [threeWay, cmp, cmpUsing]

/-- A comparison in a linear order. -/
def holds {α : Type} [LinearOrder α] (op : CmpOp) (x y : α) : Bool :=
  match op with
  | .eq => x = y
  | .ne => x ≠ y
  | .lt => x < y
  | .le => x ≤ y
  | .gt => y < x
  | .ge => y ≤ x
  | .like | .contains => false

lemma applyCmp_threeWay {α : Type} [LinearOrder α] (op : CmpOp) (x y : α) :
    applyCmp op (threeWay x y) = holds op x y := by
  have hlt := cmp_eq_lt_iff x y
  have hgt := cmp_eq_gt_iff x y
  have heq := cmp_eq_eq_iff x y
  cases op <;> simp [applyCmp, holds, threeWay, hlt, hgt, heq]

end Lockstep.Sql.Cells
