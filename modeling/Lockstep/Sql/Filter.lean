import Lockstep.Sql.Predicate
import Mathlib.Data.List.Induction
import Mathlib.Data.Option.Basic

/-!
# The vectorised filter and its zone maps

A conjunction of comparisons of columns with literals is taken apart into terms by
`try_extract_conjuncts` of `query/sql/Engine.hpp`, and the terms are applied to the cells one by
one. They give what `eval_pred` gives, except for `ANY` and `ALL`, whose array is compared as if it
were the value (`terms_eq_evalPred`).

A zone map has the least and the largest value of each column in a chunk of rows. A chunk that is
skipped holds no row that satisfies the terms, and the map of a flush is read back
(`zone_maps_sound`).
-/

namespace Lockstep.Sql.Filter

open List Cells Where

variable (F : Formats)

/-! ### The terms -/

structure VecTerm where
  col : ℕ
  op : CmpOp
  lit : Cell

def extractCmp (t : Table) (n : Comparison) : Option VecTerm := do
  let lit ← n.literal
  guard (n.qualifier = "" ∧ n.op ≠ .like ∧ n.op ≠ .contains)
  let ci ← t.columnIndex n.column
  let col ← t.columns[ci]?
  guard (col.nullable = false ∧ col.logical ≠ 7)
  let lit ← (col.read lit).toOption
  guard (lit.isText = col.isText)
  return ⟨ci, n.op, lit⟩

def tryExtractConjuncts (t : Table) : Pred → Option (List VecTerm)
  | .and left right => do
    return (← tryExtractConjuncts t left) ++ (← tryExtractConjuncts t right)
  | .cmp n => (extractCmp t n).map ([·])
  | _ => none

def VecTerm.holds (vt : VecTerm) (row : Row) : Bool :=
  applyCmp vt.op (cmpDatum F (row.getD vt.col none) (some vt.lit))

/-- The cells have the types of the columns, and are there where NULL is not allowed. -/
def Valid (t : Table) (row : Row) : Prop :=
  ∀ ci col, t.columns[ci]? = some col →
    (col.nullable = false → (row.getD ci none).isSome) ∧
      ∀ d, row.getD ci none = some d → d.isText = col.isText ∧ d.logical = col.logical

def Unquantified : Pred → Prop
  | .and left right => Unquantified left ∧ Unquantified right
  | .cmp n => n.quantifier = none
  | _ => True

structure Extracted (t : Table) (n : Comparison) (vt : VecTerm) (lit : Cell) (col : Column) :
    Prop where
  literal : n.literal = some lit
  op : vt.op = n.op
  ordered : n.op ≠ .like ∧ n.op ≠ .contains
  index : t.columnIndex n.column = some vt.col
  column : t.columns[vt.col]? = some col
  nullable : col.nullable = false
  logical : col.logical ≠ 7
  read : col.read lit = .ok vt.lit
  isText : vt.lit.isText = col.isText

lemma toOption_eq_some {ε α : Type} {x : Except ε α} {a : α} (h : x.toOption = some a) :
    x = .ok a := by
  cases x with
  | error e => cases h
  | ok b => rw [Option.some.inj h]

lemma extractCmp_spec {t : Table} {n : Comparison} {vt : VecTerm}
    (h : extractCmp t n = some vt) : ∃ lit col, Extracted t n vt lit col := by
  obtain ⟨lit, hlit, h⟩ := Option.bind_eq_some_iff.mp h
  obtain ⟨_, hop, h⟩ := Option.bind_eq_some_iff.mp h
  obtain ⟨ci, hci, h⟩ := Option.bind_eq_some_iff.mp h
  obtain ⟨col, hcol, h⟩ := Option.bind_eq_some_iff.mp h
  obtain ⟨_, hnull, h⟩ := Option.bind_eq_some_iff.mp h
  obtain ⟨read, hread, h⟩ := Option.bind_eq_some_iff.mp h
  obtain ⟨_, htext, h⟩ := Option.bind_eq_some_iff.mp h
  obtain ⟨-, hop⟩ := (Option.guard_eq_some' _).mp hop
  obtain ⟨hnull, hlog⟩ := (Option.guard_eq_some' _).mp hnull
  have htext := (Option.guard_eq_some' _).mp htext
  obtain rfl := Option.some.inj h
  exact ⟨lit, col, hlit, rfl, hop, hci, hcol, hnull, hlog, toOption_eq_some hread, htext⟩

lemma evalCmp_eq_holds {t : Table} {n : Comparison} {vt : VecTerm} {row : Row}
    (h : extractCmp t n = some vt) (hquant : n.quantifier = none) (hrow : Valid t row) :
    evalCmp F t row n = .ok (vt.holds F row) := by
  obtain ⟨lit, col, hex⟩ := extractCmp_spec h
  obtain ⟨hsome, htype⟩ := hrow vt.col col hex.column
  obtain ⟨d, hd⟩ := Option.isSome_iff_exists.mp (hsome hex.nullable)
  have htext : d.isText = vt.lit.isText := (htype d hd).1.trans hex.isText.symm
  simp only [evalCmp, Table.find, hex.index, Except.bind, hquant, hex.literal, hex.column, hex.read,
    hd]
  change compareCells F n.op (some d) vt.lit = _
  rw [compareCells, if_pos htext, leafTruth_eq F hex.ordered, VecTerm.holds, hd, hex.op]

theorem terms_eq_evalPred {t : Table} {p : Pred} {terms : List VecTerm} {row : Row}
    (hextract : tryExtractConjuncts t p = some terms) (hquant : Unquantified p)
    (hrow : Valid t row) : evalPred F t row p = .ok (terms.all fun vt ↦ vt.holds F row) := by
  induction p generalizing terms with
  | and left right ihl ihr =>
    obtain ⟨ls, hl, h⟩ := Option.bind_eq_some_iff.mp hextract
    obtain ⟨rs, hr, h⟩ := Option.bind_eq_some_iff.mp h
    obtain rfl := Option.some.inj h
    rw [evalPred, ihl hl hquant.1, ihr hr hquant.2, all_append]
    cases ls.all fun vt ↦ vt.holds F row <;> rfl
  | cmp n =>
    obtain ⟨vt, hvt, rfl⟩ := Option.map_eq_some_iff.mp hextract
    rw [evalPred, evalCmp_eq_holds F hvt hquant hrow, all_cons, all_nil, Bool.and_true]
  | _ => cases hextract

/-- The formats of the engine, where no document contains another. -/
def plainFormats : Formats := engineFormats fun _ _ ↦ false

/-- A table with a text and an integer, and its rows. -/
def textInt : Table := ⟨"t", [⟨"a", true, false, 0, .ok⟩, ⟨"b", false, false, 0, .ok⟩]⟩

def rowOf (s : List UInt8) (i : BitVec 64) : Row :=
  [some { isText := true, s := s }, some { isText := false, i := i }]

lemma valid_rowOf (s : List UInt8) (i : BitVec 64) : Valid textInt (rowOf s i) := by
  intro ci col hcol
  match ci with
  | 0 | 1 =>
    obtain rfl := Option.some.inj hcol
    exact ⟨fun _ ↦ rfl, fun d hd ↦ by obtain rfl := Option.some.inj hd; exact ⟨rfl, rfl⟩⟩
  | ci + 2 => cases hcol

/-- `a = 'x' AND b < 5`. -/
theorem terms_eq_evalPred_two :
    let p := Pred.and
      (.cmp { column := "a", op := .eq, literal := some { isText := true, s := [120] } })
      (.cmp { column := "b", op := .lt, literal := some { isText := false, i := 5 } })
    evalPred plainFormats textInt (rowOf [120] 3) p = .ok true ∧
      evalPred plainFormats textInt (rowOf [120] 7) p = .ok false := by
  intro p
  have hterms : tryExtractConjuncts textInt p = some [⟨0, .eq, { isText := true, s := [120] }⟩,
    ⟨1, .lt, { isText := false, i := 5 }⟩] := rfl
  exact ⟨terms_eq_evalPred plainFormats hterms ⟨rfl, rfl⟩ (valid_rowOf [120] 3),
    terms_eq_evalPred plainFormats hterms ⟨rfl, rfl⟩ (valid_rowOf [120] 7)⟩

/-- `a = ANY (ARRAY['x', 'y'])`. -/
theorem any_compared_as_value :
    let array : List UInt8 := [0, 0, 0, 0, 0, 2, 2, 0, 0, 0, 1, 120, 2, 0, 0, 0, 1, 121]
    let p := Pred.cmp { column := "a", op := .eq, quantifier := some .any,
                        literal := some { isText := true, s := array, logical := 7 } }
    Valid textInt (rowOf [120] 3) ∧ evalPred plainFormats textInt (rowOf [120] 3) p = .ok true ∧
      ∃ terms, tryExtractConjuncts textInt p = some terms ∧
        (terms.all fun vt ↦ vt.holds plainFormats (rowOf [120] 3)) = false :=
  ⟨valid_rowOf [120] 3, rfl, _, rfl, rfl⟩

/-! ### Zone maps -/

structure ColZone where
  has : Bool := false
  isText : Bool := false
  lo : BitVec 64 := 0
  hi : BitVec 64 := 0
  tlo : List UInt8 := []
  thi : List UInt8 := []
  deriving DecidableEq

def zoneAdd (cz : ColZone) : Datum → ColZone
  | none => cz
  | some d =>
    if d.isText then
      if cz.has then { cz with
                       isText := true, tlo := if d.s < cz.tlo then d.s else cz.tlo,
                       thi := if cz.thi < d.s then d.s else cz.thi }
      else { cz with isText := true, has := true, tlo := d.s, thi := d.s }
    else
      if cz.has then { cz with
                       isText := false,
                       lo := if d.i.toInt < cz.lo.toInt then d.i else cz.lo,
                       hi := if cz.hi.toInt < d.i.toInt then d.i else cz.hi }
      else { cz with isText := false, has := true, lo := d.i, hi := d.i }

/-- The zone of a column in a chunk. -/
def zoneOf (rows : List Row) (c : ℕ) : ColZone :=
  (rows.map fun row ↦ row.getD c none).foldl zoneAdd {}

def zoneRow (ncols : ℕ) (rows : List Row) : List ColZone := (range ncols).map (zoneOf rows)

/-- No value from `lo` to `hi` can satisfy the comparison with `x`. -/
def outside {α : Type} [LinearOrder α] (op : CmpOp) (lo hi x : α) : Bool :=
  match op with
  | .gt => hi ≤ x
  | .ge => hi < x
  | .lt => x ≤ lo
  | .le => x < lo
  | .eq => x < lo ∨ hi < x
  | _ => false

def skipTerm (cz : ColZone) (vt : VecTerm) : Bool :=
  if vt.lit.isText = false ∧ cz.isText = false then
    !cz.has || outside vt.op cz.lo.toInt cz.hi.toInt vt.lit.i.toInt
  else if vt.lit.isText = true ∧ cz.isText = true then
    !cz.has || outside vt.op cz.tlo cz.thi vt.lit.s
  else false

def chunkSkippable (zrow : List ColZone) (vterms : List VecTerm) : Bool :=
  vterms.any fun vt ↦ (zrow[vt.col]?.map fun cz ↦ skipTerm cz vt).getD false

lemma not_applyCmp_of_outside {α : Type} [LinearOrder α] {op : CmpOp} {lo hi x v : α}
    (h : outside op lo hi x = true) (hlo : lo ≤ v) (hhi : v ≤ hi) :
    applyCmp op (threeWay v x) = false := by
  have hlt := cmp_eq_lt_iff v x
  have hgt := cmp_eq_gt_iff v x
  cases op with
  | gt => exact decide_eq_false (mt hgt.mp (hhi.trans (of_decide_eq_true h)).not_gt)
  | ge => exact decide_eq_false (not_not.mpr (hlt.mpr (hhi.trans_lt (of_decide_eq_true h))))
  | lt => exact decide_eq_false (mt hlt.mp ((of_decide_eq_true h).trans hlo).not_gt)
  | le => exact decide_eq_false (not_not.mpr (hgt.mpr ((of_decide_eq_true h).trans_le hlo)))
  | eq =>
    refine decide_eq_false (mt (cmp_eq_eq_iff v x).mp ?_)
    rcases of_decide_eq_true h with h | h
    · exact (h.trans_le hlo).ne'
    · exact (hhi.trans_lt h).ne
  | _ => cases h

/-- The zone of cells of one type. -/
structure Covers (isText : Bool) (cz : ColZone) (ds : List Datum) : Prop where
  empty : cz.has = false → cz = {} ∧ ∀ d, some d ∉ ds
  type : cz.has = true → cz.isText = isText
  unused : if isText then cz.lo = 0 ∧ cz.hi = 0 else cz.tlo = [] ∧ cz.thi = []
  bounds : ∀ d, some d ∈ ds → if isText then cz.tlo ≤ d.s ∧ d.s ≤ cz.thi
    else cz.lo.toInt ≤ d.i.toInt ∧ d.i.toInt ≤ cz.hi.toInt
  origin : ∀ s, s = cz.tlo ∨ s = cz.thi → s = [] ∨ ∃ d, some d ∈ ds ∧ d.s = s

lemma Covers.zoneAdd {isText : Bool} {cz : ColZone} {ds : List Datum} {d : Datum}
    (h : Covers isText cz ds) (hd : ∀ c, d = some c → c.isText = isText) :
    Covers isText (zoneAdd cz d) (ds ++ [d]) := by
  obtain ⟨hempty, htype, hunused, hbounds, horigin⟩ := h
  cases d with
  | none => constructor <;> simp_all [Filter.zoneAdd]
  | some c =>
    have hc := hd c rfl
    cases hhas : cz.has <;> cases htext : c.isText
    · constructor <;> simp_all [Filter.zoneAdd]
    · constructor <;> simp_all [Filter.zoneAdd]
    · constructor <;> simp_all [Filter.zoneAdd]
      grind
    · constructor <;> simp_all [Filter.zoneAdd]
      · grind
      · grind

lemma covers_foldl {isText : Bool} {ds : List Datum}
    (h : ∀ d, some d ∈ ds → d.isText = isText) : Covers isText (ds.foldl zoneAdd {}) ds := by
  induction ds using reverseRecOn with
  | nil => constructor <;> simp
  | append_singleton ds d ih =>
    rw [foldl_append]
    refine (ih fun c hc ↦ h c (mem_append_left _ hc)).zoneAdd fun c hc ↦ h c ?_
    rw [hc]
    exact mem_append_right _ mem_cons_self

lemma covers_zoneOf {t : Table} {rows : List Row} (hrows : ∀ row ∈ rows, Valid t row) {c : ℕ}
    {col : Column} (hcol : t.columns[c]? = some col) :
    Covers col.isText (zoneOf rows c) (rows.map fun row ↦ row.getD c none) := by
  refine covers_foldl fun d hd ↦ ?_
  obtain ⟨row, hrow, heq⟩ := mem_map.mp hd
  exact ((hrows row hrow c col hcol).2 d heq).1

/-- The terms of a predicate are about columns of their types that hold no NULL and no array. -/
lemma exists_column_of_mem {t : Table} {p : Pred} {terms : List VecTerm}
    (h : tryExtractConjuncts t p = some terms) {vt : VecTerm} (hvt : vt ∈ terms) :
    ∃ col, t.columns[vt.col]? = some col ∧ col.nullable = false ∧ col.logical ≠ 7 ∧
      vt.lit.isText = col.isText := by
  induction p generalizing terms with
  | and left right ihl ihr =>
    obtain ⟨ls, hl, h⟩ := Option.bind_eq_some_iff.mp h
    obtain ⟨rs, hr, h⟩ := Option.bind_eq_some_iff.mp h
    obtain rfl := Option.some.inj h
    exact (mem_append.mp hvt).elim (ihl hl) (ihr hr)
  | cmp n =>
    obtain ⟨vt', hvt', rfl⟩ := Option.map_eq_some_iff.mp h
    obtain rfl := mem_singleton.mp hvt
    obtain ⟨lit, col, hex⟩ := extractCmp_spec hvt'
    exact ⟨col, hex.column, hex.nullable, hex.logical, hex.isText⟩
  | _ => cases h

section Skip

variable {t : Table} {rows : List Row} (hrows : ∀ row ∈ rows, Valid t row) {vt : VecTerm}
  {col : Column} (hcol : t.columns[vt.col]? = some col) (hnull : col.nullable = false)
  (harray : col.logical ≠ 7) (hreal : col.logical ≠ 14) (htext : vt.lit.isText = col.isText)
include hrows hcol hnull harray hreal htext

lemma not_holds_of_skipTerm (hskip : skipTerm (zoneOf rows vt.col) vt = true) {row : Row}
    (hrow : row ∈ rows) : vt.holds F row = false := by
  obtain ⟨hsome, htype⟩ := hrows row hrow vt.col col hcol
  obtain ⟨d, hd⟩ := Option.isSome_iff_exists.mp (hsome hnull)
  obtain ⟨hdtext, hdlog⟩ := htype d hd
  have hcov := covers_zoneOf hrows hcol
  have hmem : some d ∈ rows.map fun row ↦ row.getD vt.col none := mem_map.mpr ⟨row, hrow, hd⟩
  have hhas : (zoneOf rows vt.col).has = true := by
    by_contra hno
    exact (hcov.empty (eq_false_of_ne_true hno)).2 d hmem
  have hbounds := hcov.bounds d hmem
  rw [VecTerm.holds, hd, cmpDatum, if_neg fun h ↦ harray (hdlog ▸ h.1),
    if_neg fun h ↦ hreal (hdlog ▸ h.1), hdtext]
  rw [skipTerm, htext, hcov.type hhas, hhas] at hskip
  cases hcoltext : col.isText with
  | false =>
    simp only [hcoltext, if_false, Bool.false_eq_true] at hbounds hskip ⊢
    exact not_applyCmp_of_outside (by simpa using hskip) hbounds.1 hbounds.2
  | true =>
    simp only [hcoltext, if_true] at hbounds hskip ⊢
    exact not_applyCmp_of_outside (by simpa using hskip) hbounds.1 hbounds.2

end Skip

lemma not_all_holds_of_skippable {t : Table} {rows : List Row} (hrows : ∀ row ∈ rows, Valid t row)
    {p : Pred} {terms : List VecTerm} (hterms : tryExtractConjuncts t p = some terms)
    (hreal : ∀ vt ∈ terms, ∀ col, t.columns[vt.col]? = some col → col.logical ≠ 14)
    (hskip : chunkSkippable (zoneRow t.columns.length rows) terms = true) {row : Row}
    (hrow : row ∈ rows) : (terms.all fun vt ↦ vt.holds F row) = false := by
  obtain ⟨vt, hvt, hterm⟩ := any_eq_true.mp hskip
  obtain ⟨col, hcol, hnull, harray, htext⟩ := exists_column_of_mem hterms hvt
  have hlt : vt.col < t.columns.length := (List.getElem?_eq_some_iff.mp hcol).1
  have hzone : (zoneRow t.columns.length rows)[vt.col]? = some (zoneOf rows vt.col) := by
    simp [zoneRow, hlt]
  rw [hzone] at hterm
  refine all_eq_false.mpr ⟨vt, hvt, ?_⟩
  rw [not_holds_of_skipTerm F hrows hcol hnull harray (hreal vt hvt col hcol) htext hterm hrow]
  exact Bool.false_ne_true

/-! ### Zone maps as bytes -/

open RowCodec (putBE getBE getBE_putBE length_putBE)

def encodeText (s : List UInt8) : List UInt8 := putBE 4 s.length ++ s

def encodeZone (cz : ColZone) : List UInt8 :=
  ((if cz.has then 1 else 0) ||| (if cz.isText then 2 else 0)) ::
    if cz.has = false then []
    else if cz.isText then encodeText cz.tlo ++ encodeText cz.thi
    else putBE 8 cz.lo.toNat ++ putBE 8 cz.hi.toNat

def encodeZoneMap (z : List (List ColZone)) (ncols : ℕ) : List UInt8 :=
  putBE 4 z.length ++ (putBE 4 ncols ++ z.flatMap (flatMap encodeZone))

def decodeText (bytes : List UInt8) : List UInt8 × List UInt8 :=
  ((bytes.drop 4).take (getBE (bytes.take 4)), (bytes.drop 4).drop (getBE (bytes.take 4)))

def decodeInt (bytes : List UInt8) : BitVec 64 × List UInt8 :=
  (.ofNat 64 (getBE (bytes.take 8)), bytes.drop 8)

def decodeZone : List UInt8 → ColZone × List UInt8
  | [] => ({}, [])
  | flags :: bytes =>
    let cz : ColZone := { has := flags &&& 1 ≠ 0, isText := flags &&& 2 ≠ 0 }
    if cz.has = false then (cz, bytes)
    else if cz.isText then
      let (tlo, bytes) := decodeText bytes
      let (thi, bytes) := decodeText bytes
      ({ cz with tlo := tlo, thi := thi }, bytes)
    else
      let (lo, bytes) := decodeInt bytes
      let (hi, bytes) := decodeInt bytes
      ({ cz with lo := lo, hi := hi }, bytes)

def decodeMany {α : Type} (item : List UInt8 → α × List UInt8) :
    ℕ → List UInt8 → List α × List UInt8
  | 0, bytes => ([], bytes)
  | n + 1, bytes =>
    let (a, bytes) := item bytes
    let (as, bytes) := decodeMany item n bytes
    (a :: as, bytes)

def decodeZoneMap (v : List UInt8) : List (List ColZone) :=
  (decodeMany (decodeMany decodeZone (getBE ((v.drop 4).take 4))) (getBE (v.take 4)) (v.drop 8)).1

lemma decodeMany_flatMap {α : Type} {item : List UInt8 → α × List UInt8} {put : α → List UInt8}
    {as : List α} (h : ∀ a ∈ as, ∀ rest, item (put a ++ rest) = (a, rest)) (rest : List UInt8) :
    decodeMany item as.length (as.flatMap put ++ rest) = (as, rest) := by
  induction as with
  | nil => rfl
  | cons a as ih =>
    rw [length_cons, decodeMany, flatMap_cons, append_assoc, h a mem_cons_self]
    simp only [ih (forall_mem_cons.mp h).2]

lemma decodeText_encodeText {s : List UInt8} (h : s.length < 2 ^ 32) (rest : List UInt8) :
    decodeText (encodeText s ++ rest) = (s, rest) := by
  have hlen : getBE (putBE 4 s.length) = s.length :=
    (getBE_putBE 4 s.length).trans (Nat.mod_eq_of_lt h)
  simp [decodeText, encodeText, hlen]

lemma decodeInt_putBE (i : BitVec 64) (rest : List UInt8) :
    decodeInt (putBE 8 i.toNat ++ rest) = (i, rest) := by
  have hval : getBE (putBE 8 i.toNat) = i.toNat :=
    (getBE_putBE 8 i.toNat).trans (Nat.mod_eq_of_lt i.isLt)
  simp [decodeInt, hval]

/-- A zone whose unused fields have their initial values. -/
structure ZoneFits (cz : ColZone) : Prop where
  empty : cz.has = false → cz = { isText := cz.isText }
  unused : if cz.isText then cz.lo = 0 ∧ cz.hi = 0 else cz.tlo = [] ∧ cz.thi = []
  short : cz.tlo.length < 2 ^ 32 ∧ cz.thi.length < 2 ^ 32

lemma decodeZone_encodeZone {cz : ColZone} (h : ZoneFits cz) (rest : List UInt8) :
    decodeZone (encodeZone cz ++ rest) = (cz, rest) := by
  obtain ⟨has, isText, lo, hi, tlo, thi⟩ := cz
  obtain ⟨hempty, hunused, hlo, hhi⟩ := h
  cases has with
  | false =>
    cases hempty rfl
    cases isText <;> rfl
  | true =>
    cases isText with
    | false =>
      obtain ⟨rfl, rfl⟩ := hunused
      have hflag : (1 : UInt8) &&& 2 = 0 := by decide
      simp [encodeZone, decodeZone, decodeInt_putBE, hflag]
    | true =>
      obtain ⟨rfl, rfl⟩ := hunused
      have hflags : ¬(1 ||| 2 : UInt8) &&& 1 = 0 ∧ ¬(1 ||| 2 : UInt8) &&& 2 = 0 := by decide
      simp [encodeZone, decodeZone, decodeText_encodeText hlo, decodeText_encodeText hhi, hflags]

lemma decodeZoneMap_encodeZoneMap {z : List (List ColZone)} {ncols : ℕ} (hz : z.length < 2 ^ 32)
    (hncols : ncols < 2 ^ 32)
    (h : ∀ zrow ∈ z, zrow.length = ncols ∧ ∀ cz ∈ zrow, ZoneFits cz) :
    decodeZoneMap (encodeZoneMap z ncols) = z := by
  have hrow (zrow : List ColZone) (hmem : zrow ∈ z) (rest : List UInt8) :
      decodeMany decodeZone ncols (zrow.flatMap encodeZone ++ rest) = (zrow, rest) := by
    obtain ⟨rfl, hfits⟩ := h zrow hmem
    exact decodeMany_flatMap (fun cz hcz ↦ decodeZone_encodeZone (hfits cz hcz)) rest
  have hnch : getBE (putBE 4 z.length) = z.length :=
    (getBE_putBE 4 z.length).trans (Nat.mod_eq_of_lt hz)
  have hnc : getBE (putBE 4 ncols) = ncols :=
    (getBE_putBE 4 ncols).trans (Nat.mod_eq_of_lt hncols)
  have hmany := decodeMany_flatMap hrow []
  rw [append_nil] at hmany
  have hbody (rest : List UInt8) : (putBE 4 z.length ++ (putBE 4 ncols ++ rest)).drop 8 = rest := by
    rw [← append_assoc, drop_left' (by simp)]
  rw [decodeZoneMap, encodeZoneMap, hbody]
  simp [hnch, hnc, hmany]

lemma zoneFits_zoneOf {t : Table} {rows : List Row} (hrows : ∀ row ∈ rows, Valid t row)
    (hshort : ∀ row ∈ rows, ∀ d, some d ∈ row → d.s.length < 2 ^ 32) {c : ℕ}
    (hc : c < t.columns.length) : ZoneFits (zoneOf rows c) := by
  have hcov := covers_zoneOf hrows (getElem?_eq_getElem hc)
  have htext (s : List UInt8) (hs : s = (zoneOf rows c).tlo ∨ s = (zoneOf rows c).thi) :
      s.length < 2 ^ 32 := by
    obtain rfl | ⟨d, hd, rfl⟩ := hcov.origin s hs
    · exact Nat.two_pow_pos 32
    obtain ⟨row, hrow, heq⟩ := mem_map.mp hd
    refine hshort row hrow d (mem_of_getElem? (i := c) ?_)
    cases hcell : row[c]? with
    | none => simp [hcell] at heq
    | some cell => simpa [hcell] using heq
  refine ⟨fun h ↦ by rw [(hcov.empty h).1], ?_, htext _ (.inl rfl), htext _ (.inr rfl)⟩
  cases hhas : (zoneOf rows c).has with
  | false =>
    rw [(hcov.empty hhas).1]
    exact ⟨rfl, rfl⟩
  | true =>
    rw [hcov.type hhas]
    exact hcov.unused

/-- Chunks of valid rows, as a flush writes them. -/
theorem zone_maps_sound {t : Table} {chunks : List (List Row)}
    (hrows : ∀ rows ∈ chunks, ∀ row ∈ rows, Valid t row) :
    (∀ p terms, tryExtractConjuncts t p = some terms →
      (∀ vt ∈ terms, ∀ col, t.columns[vt.col]? = some col → col.logical ≠ 14) →
      ∀ rows ∈ chunks, chunkSkippable (zoneRow t.columns.length rows) terms = true →
        ∀ row ∈ rows, (terms.all fun vt ↦ vt.holds F row) = false) ∧
    (∀ z ncols, z.length < 2 ^ 32 → ncols < 2 ^ 32 →
      (∀ zrow ∈ z, zrow.length = ncols ∧ ∀ cz ∈ zrow, ZoneFits cz) →
      decodeZoneMap (encodeZoneMap z ncols) = z) ∧
    ((∀ rows ∈ chunks, ∀ row ∈ rows, ∀ d, some d ∈ row → d.s.length < 2 ^ 32) →
      ∀ rows ∈ chunks, ∀ cz ∈ zoneRow t.columns.length rows, ZoneFits cz) := by
  refine ⟨fun p terms hterms hreal rows hmem hskip row hrow ↦ ?_,
    fun _ _ ↦ decodeZoneMap_encodeZoneMap, fun hshort rows hmem cz hcz ↦ ?_⟩
  · exact not_all_holds_of_skippable F (hrows rows hmem) hterms hreal hskip hrow
  · obtain ⟨c, hc, rfl⟩ := mem_map.mp hcz
    exact zoneFits_zoneOf (hrows rows hmem) (hshort rows hmem) (mem_range.mp hc)

/-- Two chunks of two rows, of which the second one is skipped for `b < 5`. -/
theorem zone_maps_sound_skips :
    let chunk := [rowOf [99] 7, rowOf [120] 9]
    let chunks := [[rowOf [97] 1, rowOf [98] 4], chunk]
    let z := chunks.map (zoneRow 2)
    let terms : List VecTerm := [⟨1, .lt, { isText := false, i := 5 }⟩]
    decodeZoneMap (encodeZoneMap z 2) = z ∧ z.map (chunkSkippable · terms) = [false, true] ∧
      ∀ row ∈ chunk, (terms.all fun vt ↦ vt.holds plainFormats row) = false := by
  intro chunk chunks z terms
  have hrows : ∀ rows ∈ chunks, ∀ row ∈ rows, Valid textInt row := by
    simp [chunks, chunk, valid_rowOf]
  have hsound := zone_maps_sound plainFormats hrows
  have hterms : tryExtractConjuncts textInt
      (.cmp { column := "b", op := .lt, literal := some { isText := false, i := 5 } }) =
        some terms := rfl
  refine ⟨hsound.2.1 z 2 (by decide) (by decide) ?_, by decide, ?_⟩
  · have hfits := hsound.2.2 (by simp [chunks, chunk, rowOf])
    simpa [z, zoneRow, textInt] using hfits
  · refine hsound.1 _ terms hterms ?_ chunk (by simp [chunks]) (by decide)
    simp [terms, textInt]

/-- A zone without a value is read back with the initial bounds. -/
theorem empty_zone_reset :
    decodeZoneMap (encodeZoneMap [[{ lo := 5 }]] 1) = [[{}]] ∧
      ([[{ lo := 5 }]] : List (List ColZone)) ≠ [[{}]] := by
  decide

end Lockstep.Sql.Filter
