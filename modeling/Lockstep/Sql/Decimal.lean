import Mathlib.Data.Nat.Prime.Basic
import Mathlib.Data.Rat.Floor
import Mathlib.Tactic.FieldSimp
import Mathlib.Tactic.NormNum
import Mathlib.Tactic.Ring

/-!
# DECIMAL arithmetic

The 64-bit and the 128-bit arithmetic of `query/sql/Engine.hpp` on payloads with a scale. A signed
computation that leaves its type is `Fault.undefined`. The results are exact apart from three
slips (`arithmetic_exact_iff`): the power of ten that aligns the operands is computed without a
check, the scale of a product wraps at 256, and the 128-bit division lacks the check of the
smallest payload by `-1` that the 64-bit one has.
-/

namespace Lockstep.Sql.Decimal

inductive BinOp
  | add | sub | mul | div

/-- A payload and the number of its digits behind the point. -/
structure Number (w : ℕ) where
  payload : BitVec w
  scale : UInt8

inductive Fault
  | error (text : String)
  | undefined

variable {w : ℕ}

/-- The overflow builtins, for a result `v` that overflows where `ovf` says so. -/
def orOverflow (ovf : Bool) (v : BitVec w) : Except Fault (BitVec w) :=
  if ovf then throw (.error "integer overflow") else pure v

/-- A plain signed computation. -/
def plain (ovf : Bool) (v : BitVec w) : Except Fault (BitVec w) :=
  if ovf then throw .undefined else pure v

def p10 (w : ℕ) : ℕ → Except Fault (BitVec w)
  | 0 => pure 1
  | k + 1 => do
    let p ← p10 w k
    plain (p.smulOverflow 10) (p * 10)

def mulOvf (a b : BitVec w) : Except Fault (BitVec w) := orOverflow (a.smulOverflow b) (a * b)

def mulOvfI128 (a b : BitVec 128) : Except Fault (BitVec 128) :=
  let out := a * b
  if a = 0 then pure out
  else if a = -1 ∧ b = .intMin 128 then throw (.error "integer overflow")
  else do
    let q ← plain (out.sdivOverflow a) (out.sdiv a)
    orOverflow (q ≠ b) out

section Evaluator

variable (mul : BitVec w → BitVec w → Except Fault (BitVec w)) (l r : Number w)

/-- Both operands at the larger scale, then `f`. -/
def aligned (ovf : BitVec w → BitVec w → Bool) (f : BitVec w → BitVec w → BitVec w) :
    Except Fault (Number w) := do
  let cs := if l.scale > r.scale then l.scale else r.scale
  let li ← mul l.payload (← p10 w (cs - l.scale).toNat)
  let ri ← mul r.payload (← p10 w (cs - r.scale).toNat)
  return ⟨← orOverflow (ovf li ri) (f li ri), cs⟩

def product : Except Fault (Number w) :=
  return ⟨← mul l.payload r.payload, l.scale + r.scale⟩

end Evaluator

def eval64 (op : BinOp) (l r : Number 64) : Except Fault (Number 64) :=
  match op with
  | .add => aligned mulOvf l r BitVec.saddOverflow (· + ·)
  | .sub => aligned mulOvf l r BitVec.ssubOverflow (· - ·)
  | .mul => product mulOvf l r
  | .div => do
    if r.payload = 0 then throw (.error "division by zero")
    let num ← mulOvf l.payload (← p10 64 r.scale.toNat)
    if l.payload = .intMin 64 ∧ r.payload = -1 then throw (.error "integer overflow")
    return ⟨← plain (num.sdivOverflow r.payload) (num.sdiv r.payload), l.scale⟩

def evalBinI128 (op : BinOp) (l r : Number 128) : Except Fault (Number 128) :=
  match op with
  | .add => aligned mulOvfI128 l r BitVec.saddOverflow (· + ·)
  | .sub => aligned mulOvfI128 l r BitVec.ssubOverflow (· - ·)
  | .mul => product mulOvfI128 l r
  | .div => do
    if r.payload = 0 then throw (.error "division by zero")
    let num ← mulOvfI128 l.payload (← p10 128 r.scale.toNat)
    return ⟨← plain (num.sdivOverflow r.payload) (num.sdiv r.payload), l.scale⟩

/-! ### What the results stand for -/

def Number.value (n : Number w) : ℚ := n.payload.toInt / 10 ^ n.scale.toNat

/-- Toward zero. -/
def truncate (q : ℚ) : ℤ := if 0 ≤ q then ⌊q⌋ else ⌈q⌉

def Exact (op : BinOp) (l r out : Number w) : Prop :=
  match op with
  | .add => out.value = l.value + r.value
  | .sub => out.value = l.value - r.value
  | .mul => out.value = l.value * r.value
  | .div => out.scale = l.scale ∧
      out.payload.toInt = truncate (l.value / r.value * 10 ^ l.scale.toNat)

/-- Nothing is undefined, and a result satisfies `post`. -/
def Meets {α : Type} (post : α → Prop) : Except Fault α → Prop
  | .ok a => post a
  | .error (.error _) => True
  | .error .undefined => False

section Steps

variable {α β : Type} {post : α → Prop} {post' : β → Prop}

lemma Meets.bind {x : Except Fault α} {f : α → Except Fault β} (hx : Meets post x)
    (hf : ∀ a, post a → Meets post' (f a)) : Meets post' (x >>= f) := by
  match x with
  | .ok a => exact hf a hx
  | .error (.error _) => trivial
  | .error .undefined => exact hx.elim

lemma Meets.mono {x : Except Fault α} {post' : α → Prop} (hx : Meets post x)
    (h : ∀ a, post a → post' a) : Meets post' x := by
  match x with
  | .ok a => exact h a hx
  | .error (.error _) => trivial
  | .error .undefined => exact hx

lemma meets_orOverflow {ovf : Bool} {v : BitVec w} {post : BitVec w → Prop}
    (h : ¬ovf = true → post v) : Meets post (orOverflow ovf v) := by
  cases ovf
  · exact h Bool.false_ne_true
  · trivial

lemma meets_mulOvf (a b : BitVec w) :
    Meets (fun c ↦ c.toInt = a.toInt * b.toInt) (mulOvf a b) :=
  meets_orOverflow BitVec.toInt_mul_of_not_smulOverflow

lemma not_smulOverflow_iff (a b : BitVec w) : ¬a.smulOverflow b = true ↔
    -2 ^ (w - 1) ≤ a.toInt * b.toInt ∧ a.toInt * b.toInt < 2 ^ (w - 1) := by
  simp [BitVec.smulOverflow, and_comm]

lemma tdiv_product_iff {a : BitVec w} (ha : a ≠ 0) (b : BitVec w) :
    (a * b).toInt.tdiv a.toInt = b.toInt ↔ ¬a.smulOverflow b = true := by
  have hne : a.toInt ≠ 0 := fun h ↦ ha (BitVec.toInt_inj.mp (h.trans BitVec.toInt_zero.symm))
  refine ⟨fun h ↦ ?_, fun h ↦ ?_⟩
  · -- the remainder is a multiple of `2 ^ w` and smaller than the divisor
    have hdiv := Int.mul_tdiv_add_tmod (a * b).toInt a.toInt
    rw [h] at hdiv
    have hdvd : ((2 ^ w : ℕ) : ℤ) ∣ (a * b).toInt.tmod a.toInt := by
      have hlost : ((2 ^ w : ℕ) : ℤ) ∣ (a * b).toInt - a.toInt * b.toInt := by
        rw [BitVec.toInt_mul]
        exact Int.dvd_bmod_sub_self
      rwa [← eq_sub_of_add_eq' hdiv] at hlost
    have hsmall : ((a * b).toInt.tmod a.toInt).natAbs < ((2 ^ w : ℕ) : ℤ).natAbs := by
      have hlt : (a * b).toInt.natAbs % a.toInt.natAbs < a.toInt.natAbs :=
        Nat.mod_lt _ (Int.natAbs_pos.mpr hne)
      have hle : a.toInt.natAbs ≤ 2 ^ w := by
        have hmin := a.le_toInt
        have hmax : a.toInt < 2 ^ (w - 1) := BitVec.toInt_lt
        have hpow : (2 : ℤ) ^ (w - 1) ≤ 2 ^ w := pow_le_pow_right₀ (by decide) (Nat.sub_le w 1)
        zify
        exact abs_le.mpr ⟨by omega, by omega⟩
      rw [Int.natAbs_tmod]
      exact hlt.trans_le hle
    rw [Int.eq_zero_of_dvd_of_natAbs_lt_natAbs hdvd hsmall, add_zero] at hdiv
    rw [not_smulOverflow_iff, hdiv]
    exact ⟨BitVec.le_toInt _, BitVec.toInt_lt⟩
  · rw [BitVec.toInt_mul_of_not_smulOverflow h, Int.mul_tdiv_cancel_left _ hne]

lemma mulOvfI128_eq (a b : BitVec 128) : mulOvfI128 a b = mulOvf a b := by
  rw [mulOvfI128]
  split_ifs with ha hmin
  · have hno : ¬a.smulOverflow b = true := by
      rw [not_smulOverflow_iff, ha]
      simp
    exact (if_neg hno).symm
  · rw [hmin.1, hmin.2]
    rfl
  · have hdiv : a * b ≠ .intMin 128 ∨ a ≠ -1 := by
      by_contra! h
      have hneg : -b = .intMin 128 := by
        rw [← h.1, h.2, BitVec.neg_mul]
        exact congrArg _ (BitVec.one_mul b).symm
      exact hmin ⟨h.2, by simpa using hneg⟩
    have hno : ¬(a * b).sdivOverflow a = true := by
      rw [BitVec.sdivOverflow_eq]
      simpa [imp_iff_not_or] using hdiv
    have hq : (a * b).sdiv a ≠ b ↔ a.smulOverflow b = true := by
      rw [← not_iff_not, not_not, ← tdiv_product_iff ha, ← BitVec.toInt_sdiv_of_ne_or_ne _ _ hdiv,
        BitVec.toInt_inj]
    rw [plain, if_neg hno]
    change orOverflow _ _ = _
    simp [mulOvf, hq]

end Steps

lemma rescale (v : ℚ) {s cs : ℕ} (h : s ≤ cs) : v * 10 ^ (cs - s) / 10 ^ cs = v / 10 ^ s := by
  have hpow : (10 : ℚ) ^ cs = 10 ^ (cs - s) * 10 ^ s := by rw [← pow_add, Nat.sub_add_cancel h]
  rw [hpow, mul_comm v, mul_div_mul_left _ _ (by positivity)]

section PowersOfTen

variable (hone : (1 : BitVec w).toInt = 1) (hten : (10 : BitVec w).toInt = 10)
include hone hten

lemma p10_cases (k : ℕ) :
    10 ^ k < 2 ^ (w - 1) ∧ (∃ p, p10 w k = .ok p ∧ p.toInt = 10 ^ k) ∨
      2 ^ (w - 1) ≤ 10 ^ k ∧ p10 w k = .error .undefined := by
  induction k with
  | zero =>
    have hlt : (1 : ℤ) < 2 ^ (w - 1) := hone ▸ BitVec.toInt_lt
    exact .inl ⟨by exact_mod_cast hlt, 1, rfl, by simpa using hone⟩
  | succ k ih =>
    have hstep : 10 ^ k ≤ 10 ^ (k + 1) := Nat.pow_le_pow_right (by decide) k.le_succ
    obtain ⟨hlt, p, hp, hval⟩ | ⟨hle, hp⟩ := ih
    · rw [p10, hp]
      have hprod : p.toInt * (10 : BitVec w).toInt = 10 ^ (k + 1) := by rw [hval, hten, pow_succ]
      by_cases hfits : 10 ^ (k + 1) < 2 ^ (w - 1)
      · have hno : ¬p.smulOverflow 10 = true := by
          rw [not_smulOverflow_iff, hprod]
          have hpos : (0 : ℤ) < 10 ^ (k + 1) := by positivity
          have hmin : (0 : ℤ) < 2 ^ (w - 1) := by positivity
          exact ⟨by omega, by exact_mod_cast hfits⟩
        refine .inl ⟨hfits, p * 10, if_neg hno, ?_⟩
        rw [BitVec.toInt_mul_of_not_smulOverflow hno, hprod]
      · have hovf : p.smulOverflow 10 = true := by
          by_contra hno
          rw [not_smulOverflow_iff, hprod] at hno
          exact hfits (by exact_mod_cast hno.2)
        exact .inr ⟨not_lt.mp hfits, if_pos hovf⟩
    · exact .inr ⟨hle.trans hstep, by rw [p10, hp]; rfl⟩

lemma meets_p10 {k : ℕ} (hk : 10 ^ k < 2 ^ (w - 1)) :
    Meets (fun p ↦ p.toInt = 10 ^ k) (p10 w k) := by
  obtain ⟨-, p, hp, hval⟩ | ⟨hle, -⟩ := p10_cases hone hten k
  · rw [hp]
    exact hval
  · omega

lemma p10_undefined {k : ℕ} (hk : ¬10 ^ k < 2 ^ (w - 1)) : p10 w k = .error .undefined := by
  obtain ⟨hlt, -⟩ | ⟨-, hp⟩ := p10_cases hone hten k
  · exact (hk hlt).elim
  · exact hp

/-! ### The operations -/

/-- How far the scales are apart. -/
def gap (l r : Number w) : ℕ :=
  max l.scale.toNat r.scale.toNat - min l.scale.toNat r.scale.toNat

section Aligned

variable {l r : Number w} {ovf : BitVec w → BitVec w → Bool}
  {f : BitVec w → BitVec w → BitVec w}

lemma meets_aligned {e : ℤ} (hf : ∀ a b, ¬ovf a b = true → (f a b).toInt = a.toInt + e * b.toInt)
    (hgap : 10 ^ gap l r < 2 ^ (w - 1)) :
    Meets (fun out ↦ out.value = l.value + e * r.value) (aligned mulOvf l r ovf f) := by
  rw [aligned]
  generalize hcs : (if l.scale > r.scale then l.scale else r.scale) = cs
  have hmax : cs.toNat = max l.scale.toNat r.scale.toNat := by
    simp only [gt_iff_lt, UInt8.lt_iff_toNat_lt] at hcs
    split_ifs at hcs <;> subst hcs <;> omega
  have hlc : l.scale.toNat ≤ cs.toNat := by omega
  have hrc : r.scale.toNat ≤ cs.toNat := by omega
  have hl : (cs - l.scale).toNat = cs.toNat - l.scale.toNat :=
    UInt8.toNat_sub_of_le _ _ (UInt8.le_iff_toNat_le.mpr hlc)
  have hr : (cs - r.scale).toNat = cs.toNat - r.scale.toNat :=
    UInt8.toNat_sub_of_le _ _ (UInt8.le_iff_toNat_le.mpr hrc)
  have hexp {k : ℕ} (hk : k ≤ gap l r) : 10 ^ k < 2 ^ (w - 1) :=
    (Nat.pow_le_pow_right (by decide) hk).trans_lt hgap
  unfold gap at hexp
  have hsum (a b) : Meets (·.toInt = a.toInt + e * b.toInt) (orOverflow (ovf a b) (f a b)) :=
    meets_orOverflow (hf a b)
  refine (meets_p10 hone hten (hexp (by omega))).bind fun pl hpl ↦
    (meets_mulOvf _ _).bind fun li hli ↦ (meets_p10 hone hten (hexp (by omega))).bind
      fun pr hpr ↦ (meets_mulOvf _ _).bind fun ri hri ↦ (hsum li ri).bind fun v hv ↦ ?_
  change (v.toInt : ℚ) / 10 ^ cs.toNat = _
  rw [hv, hli, hri, hpl, hpr, hl, hr, Number.value, Number.value,
    ← rescale _ hlc, ← rescale _ hrc]
  push_cast
  ring

lemma aligned_undefined (hgap : ¬10 ^ gap l r < 2 ^ (w - 1)) :
    aligned mulOvf l r ovf f = .error .undefined := by
  rw [aligned]
  by_cases hlt : r.scale < l.scale
  · -- the left operand is multiplied by one first
    have hno : ¬l.payload.smulOverflow 1 = true := by
      rw [not_smulOverflow_iff, hone, mul_one]
      exact ⟨l.payload.le_toInt, BitVec.toInt_lt⟩
    have hmul : mulOvf l.payload 1 = .ok (l.payload * 1) := if_neg hno
    have hexp : (l.scale - r.scale).toNat = gap l r := by
      rw [gap, UInt8.toNat_sub_of_le _ _ (UInt8.le_of_lt hlt)]
      rw [UInt8.lt_iff_toNat_lt] at hlt
      omega
    rw [← hexp] at hgap
    simp only [gt_iff_lt, hlt, if_true, UInt8.sub_self, p10_undefined hone hten hgap]
    change (mulOvf l.payload 1 >>= fun _ ↦ _) = _
    rw [hmul]
    rfl
  · have hle := UInt8.not_lt.mp hlt
    have hexp : (r.scale - l.scale).toNat = gap l r := by
      rw [gap, UInt8.toNat_sub_of_le _ _ hle]
      rw [UInt8.le_iff_toNat_le] at hle
      omega
    rw [← hexp] at hgap
    simp only [gt_iff_lt, hlt, if_false, p10_undefined hone hten hgap]
    rfl

end Aligned

end PowersOfTen

lemma meets_product_iff (l r : Number w) :
    Meets (fun out ↦ out.value = l.value * r.value) (product mulOvf l r) ↔
      l.scale.toNat + r.scale.toNat < 256 ∨ l.payload.toInt * r.payload.toInt = 0 ∨
        l.payload.smulOverflow r.payload = true := by
  by_cases hovf : l.payload.smulOverflow r.payload = true
  · simp [product, mulOvf, orOverflow, hovf]
    trivial
  have hout : product mulOvf l r = .ok ⟨l.payload * r.payload, l.scale + r.scale⟩ := by
    rw [product, mulOvf, orOverflow, if_neg hovf]
    rfl
  have hmul : l.value * r.value = ((l.payload.toInt * r.payload.toInt : ℤ) : ℚ) /
      10 ^ (l.scale.toNat + r.scale.toNat) := by
    rw [Number.value, Number.value, pow_add]
    push_cast
    field_simp
  rw [hout, hmul]
  change ((l.payload * r.payload).toInt : ℚ) / 10 ^ (l.scale + r.scale).toNat = _ ↔ _
  rw [BitVec.toInt_mul_of_not_smulOverflow hovf, UInt8.toNat_add]
  by_cases hzero : l.payload.toInt * r.payload.toInt = 0
  · simp [hzero]
  · rw [div_eq_mul_inv, div_eq_mul_inv, mul_right_inj' (by exact_mod_cast hzero), inv_inj,
      pow_right_inj₀ (by norm_num) (by norm_num)]
    rw [or_iff_left (not_or.mpr ⟨hzero, hovf⟩)]
    omega

lemma truncate_div_natCast (a : ℤ) (d : ℕ) : truncate (a / d) = a.tdiv d := by
  obtain ha | ha := le_total 0 a
  · have hq : (0 : ℚ) ≤ a / d := div_nonneg (by exact_mod_cast ha) d.cast_nonneg
    rw [truncate, if_pos hq, Rat.floor_intCast_div_natCast, Int.tdiv_eq_ediv_of_nonneg ha]
  have hq : (a / d : ℚ) ≤ 0 := div_nonpos_of_nonpos_of_nonneg (by exact_mod_cast ha) d.cast_nonneg
  have hceil : truncate (a / d) = ⌈(a / d : ℚ)⌉ := by
    rw [truncate, ite_eq_right_iff]
    intro hq'
    rw [le_antisymm hq hq', Int.floor_zero, Int.ceil_zero]
  rw [hceil, Rat.ceil_intCast_div_natCast, ← Int.tdiv_eq_ediv_of_nonneg (by omega), Int.neg_tdiv,
    neg_neg]

lemma truncate_div (a b : ℤ) : truncate (a / b) = a.tdiv b := by
  obtain ⟨d, rfl | rfl⟩ := b.eq_nat_or_neg
  · exact_mod_cast truncate_div_natCast a d
  have hneg := truncate_div_natCast (-a) d
  rw [Int.neg_tdiv, ← Int.tdiv_neg] at hneg
  rw [← hneg]
  push_cast
  rw [div_neg, neg_div]

lemma eq_intMin_of_scaled (hmin : (BitVec.intMin w).toInt = -2 ^ (w - 1)) {a num : BitVec w}
    {k : ℕ} (hnum : num.toInt = a.toInt * 10 ^ k) (h : num = .intMin w) :
    a = .intMin w ∧ k = 0 := by
  rw [h, hmin] at hnum
  cases k with
  | zero => exact ⟨BitVec.toInt_inj.mp (by rw [hmin, hnum, pow_zero, mul_one]), rfl⟩
  | succ k =>
    have hfive : (5 : ℤ) ∣ 2 ^ (w - 1) := by
      rw [← Int.dvd_neg, hnum, pow_succ]
      exact Dvd.dvd.mul_left (Dvd.dvd.mul_left (by decide) _) _
    have htwo : 5 ∣ 2 := Nat.prime_five.dvd_of_dvd_pow (by exact_mod_cast hfive)
    exact absurd htwo (by decide)

lemma meets_quotient {l r : Number w} {num : BitVec w}
    (hnum : num.toInt = l.payload.toInt * 10 ^ r.scale.toNat)
    (hdef : num ≠ .intMin w ∨ r.payload ≠ -1) :
    Meets (Exact .div l r) (do
      return ⟨← plain (num.sdivOverflow r.payload) (num.sdiv r.payload), l.scale⟩) := by
  have hno : ¬num.sdivOverflow r.payload = true := by
    rw [BitVec.sdivOverflow_eq, ← BitVec.neg_one_eq_allOnes]
    simpa [imp_iff_not_or, or_assoc] using .inr hdef
  rw [plain, if_neg hno]
  refine ⟨rfl, ?_⟩
  rw [BitVec.toInt_sdiv_of_ne_or_ne _ _ hdef, ← truncate_div, hnum, Number.value, Number.value]
  congr 1
  push_cast
  field_simp

/-- No power of ten overflows, and the scale of a product fits its byte or nothing depends on it. -/
def Safe (op : BinOp) (l r : Number w) : Prop :=
  match op with
  | .add | .sub => 10 ^ gap l r < 2 ^ (w - 1)
  | .mul => l.scale.toNat + r.scale.toNat < 256 ∨ l.payload.toInt * r.payload.toInt = 0 ∨
      l.payload.smulOverflow r.payload = true
  | .div => r.payload = 0 ∨ 10 ^ r.scale.toNat < 2 ^ (w - 1)

section Widths

variable (hone : (1 : BitVec w).toInt = 1) (hten : (10 : BitVec w).toInt = 10) {l r : Number w}
include hone hten

lemma meets_aligned_iff {ovf : BitVec w → BitVec w → Bool} {f : BitVec w → BitVec w → BitVec w}
    {e : ℤ} (hf : ∀ a b, ¬ovf a b = true → (f a b).toInt = a.toInt + e * b.toInt)
    {post : Number w → Prop} (hpost : ∀ out, out.value = l.value + e * r.value → post out) :
    Meets post (aligned mulOvf l r ovf f) ↔ Safe .add l r := by
  refine ⟨fun h ↦ ?_, fun hgap ↦ (meets_aligned hone hten hf hgap).mono hpost⟩
  by_contra hgap
  rwa [aligned_undefined hone hten hgap] at h

lemma meets_add_iff :
    Meets (Exact .add l r) (aligned mulOvf l r BitVec.saddOverflow (· + ·)) ↔ Safe .add l r := by
  refine meets_aligned_iff hone hten (e := 1) (fun a b hno ↦ ?_) fun out hout ↦ ?_
  · rw [BitVec.toInt_add_of_not_saddOverflow hno, one_mul]
  · simpa [Exact] using hout

lemma meets_sub_iff :
    Meets (Exact .sub l r) (aligned mulOvf l r BitVec.ssubOverflow (· - ·)) ↔ Safe .sub l r := by
  refine meets_aligned_iff hone hten (e := -1) (fun a b hno ↦ ?_) fun out hout ↦ ?_
  · rw [BitVec.toInt_sub_of_not_ssubOverflow hno, neg_one_mul, sub_eq_add_neg]
  · simpa [Exact, ← sub_eq_add_neg] using hout

lemma meets_scaled_iff {a : BitVec w} {k : ℕ} {rest : BitVec w → Except Fault (Number w)}
    {post : Number w → Prop}
    (hrest : ∀ num, num.toInt = a.toInt * 10 ^ k → Meets post (rest num)) :
    Meets post (p10 w k >>= fun p ↦ mulOvf a p >>= rest) ↔ 10 ^ k < 2 ^ (w - 1) := by
  refine ⟨fun h ↦ ?_, fun hk ↦ (meets_p10 hone hten hk).bind fun p hp ↦
    (meets_mulOvf a p).bind fun num hnum ↦ hrest num (by rw [hnum, hp])⟩
  by_contra hk
  rwa [p10_undefined hone hten hk] at h

end Widths

lemma meets_div_64_iff (l r : Number 64) :
    Meets (Exact .div l r) (eval64 .div l r) ↔ Safe .div l r := by
  by_cases hzero : r.payload = 0
  · simp [eval64, hzero, Safe]
    trivial
  simp only [eval64, Safe, hzero, false_or]
  refine meets_scaled_iff rfl rfl fun num hnum ↦ ?_
  split_ifs with hmin
  · trivial
  · refine meets_quotient hnum (not_and_or.mp fun h ↦ hmin ⟨?_, h.2⟩)
    exact (eq_intMin_of_scaled rfl hnum h.1).1

/-- The one division whose quotient does not fit, which is not looked for. -/
def SmallestByMinusOne (l r : Number 128) : Prop :=
  l.payload = .intMin 128 ∧ r.scale = 0 ∧ r.payload = -1

lemma div_undefined_of_smallest {l r : Number 128} (h : SmallestByMinusOne l r) :
    evalBinI128 .div l r = .error .undefined := by
  obtain ⟨hl, hs, hr⟩ := h
  simp only [evalBinI128, hl, hs, hr]
  rfl

lemma meets_div_i128_iff (l r : Number 128) :
    Meets (Exact .div l r) (evalBinI128 .div l r) ↔
      Safe .div l r ∧ ¬SmallestByMinusOne l r := by
  by_cases hbad : SmallestByMinusOne l r
  · rw [div_undefined_of_smallest hbad]
    simp [Meets, hbad]
  by_cases hzero : r.payload = 0
  · simp [evalBinI128, hzero, Safe, hbad]
    trivial
  simp only [evalBinI128, Safe, hzero, false_or, hbad, not_false_eq_true, and_true,
    mulOvfI128_eq]
  refine meets_scaled_iff rfl rfl fun num hnum ↦ ?_
  refine meets_quotient hnum (not_and_or.mp fun h ↦ hbad ?_)
  obtain ⟨hl, hr⟩ := eq_intMin_of_scaled rfl hnum h.1
  exact ⟨hl, UInt8.toNat_inj.mp hr, h.2⟩

/-- Exact or an error, with nothing undefined. -/
theorem arithmetic_exact_iff (op : BinOp) :
    (∀ l r : Number 64, Meets (Exact op l r) (eval64 op l r) ↔ Safe op l r) ∧
      ∀ l r : Number 128, Meets (Exact op l r) (evalBinI128 op l r) ↔
        Safe op l r ∧ (op = .div → ¬SmallestByMinusOne l r) := by
  refine ⟨fun l r ↦ ?_, fun l r ↦ ?_⟩
  · cases op with
    | add => exact meets_add_iff rfl rfl
    | sub => exact meets_sub_iff rfl rfl
    | mul => exact meets_product_iff l r
    | div => exact meets_div_64_iff l r
  · have hmul : mulOvfI128 = mulOvf := funext₂ mulOvfI128_eq
    cases op with
    | add => simpa [evalBinI128, hmul] using meets_add_iff rfl rfl
    | sub => simpa [evalBinI128, hmul] using meets_sub_iff rfl rfl
    | mul =>
      simp only [evalBinI128, hmul, reduceCtorEq, false_imp_iff, and_true]
      exact meets_product_iff l r
    | div => simpa using meets_div_i128_iff l r

theorem one_plus_tiny_undefined :
    eval64 .add ⟨1, 19⟩ ⟨1, 0⟩ = .error .undefined ∧ ¬Safe (w := 64) .add ⟨1, 19⟩ ⟨1, 0⟩ := by
  refine ⟨rfl, ?_⟩
  unfold Safe
  decide

end Lockstep.Sql.Decimal
