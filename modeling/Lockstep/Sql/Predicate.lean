import Lockstep.Sql.Cells
import Mathlib.Data.Fintype.Option
import Mathlib.Data.Option.NAry

/-!
# WHERE

`eval_pred` of `query/sql/Engine.hpp` for a predicate over one row gives every node one of two
values: a comparison with NULL, which SQL calls UNKNOWN, is false at the leaf. `sql` is SQL's
three-valued logic. The two agree whenever SQL has a definite answer; an UNKNOWN operand of NOT
comes out true (`Raised`).
-/

namespace Lockstep.Sql.Where

open Cells

structure Column where
  name : String
  isText : Bool
  nullable : Bool
  logical : ℕ
  /-- How a literal is read for a comparison. -/
  coerce : Cell → Except String Cell

structure Table where
  name : String
  columns : List Column

namespace Table

def columnIndex (t : Table) (name : String) : Option ℕ :=
  t.columns.findIdx? fun col ↦ col.name = name

def find (t : Table) (name : String) : Except String ℕ :=
  match t.columnIndex name with
  | some ci => .ok ci
  | none => .error s!"unknown column '{name}' in table '{t.name}'"

end Table

inductive Quantifier
  | any | all

structure Comparison where
  qualifier : String := ""
  column : String
  op : CmpOp
  quantifier : Option Quantifier := none
  literal : Datum

abbrev Row := List Datum

/-- The rows of a subquery of one column. -/
structure SubColumn where
  values : List Cell
  hasNull : Bool := false

/-- `cmpColumn` compares two columns. `other` is `EXISTS`, and comparisons with subqueries, array
columns or expressions. -/
inductive Pred
  | and (left right : Pred)
  | or (left right : Pred)
  | not (left : Pred)
  | isNull (column : String) (isNot : Bool)
  | inList (column : String) (isNot : Bool) (sub : SubColumn)
  | cmp (n : Comparison)
  | cmpColumn (column : String) (op : CmpOp) (rhsColumn : String)
  | other (eval : Row → Except String Bool)

section

variable (F : Formats) (t : Table) (row : Row)

def typeName (isText : Bool) : String := if isText then "TEXT" else "INT"

def quantified (q : Quantifier) (op : CmpOp) : Datum → Datum → Bool
  | some lhs, some arr =>
    if arr.logical = 7 then
      let hits := (F.decodeArray arr.s).map fun el ↦
        el.isSome && applyCmp op (cmpDatum F (some lhs) el)
      match q with
      | .any => hits.any id
      | .all => hits.all id
    else false
  | _, _ => false

def compareCells (op : CmpOp) : Datum → Cell → Except String Bool
  | none, _ => .ok false
  | some lhs, rhs =>
    if lhs.isText = rhs.isText then .ok (leafTruth F op lhs rhs) else .error
      (s!"type mismatch in predicate: comparing {typeName lhs.isText}" ++
        s!" to {typeName rhs.isText}")

def Column.read (col : Column) (lit : Cell) : Except String Cell :=
  if col.logical ≠ 0 then col.coerce lit else .ok lit

def evalCmp (n : Comparison) : Except String Bool :=
  (t.find n.column).bind fun ci ↦
    let lhs := row.getD ci none
    match n.quantifier, n.literal, t.columns[ci]? with
    | some q, lit, _ => .ok (quantified F q n.op lhs lit)
    | none, some lit, some col => (col.read lit).bind (compareCells F n.op lhs)
    | _, _, _ => .ok false

def matched (probe : Cell) : List Cell → Except String Bool
  | [] => .ok false
  | v :: values =>
    if v.isText = probe.isText then
      if cmpDatum F (some v) (some probe) = .eq then .ok true else matched probe values
    else .error <| s!"type mismatch in IN: probe is {typeName probe.isText}, " ++
      s!"subquery column is {typeName v.isText}"

def applyIn (isNot : Bool) (sub : SubColumn) : Datum → Except String Bool
  | none => .ok false
  | some probe => (matched F probe sub.values).bind fun found ↦
    .ok (if isNot then !found && !sub.hasNull else found)

def evalPred : Pred → Except String Bool
  | .and left right => (evalPred left).bind fun l ↦ if l then evalPred right else .ok false
  | .or left right => (evalPred left).bind fun l ↦ if l then .ok true else evalPred right
  | .not left => (evalPred left).map Bool.not
  | .isNull column isNot => (t.find column).bind fun ci ↦ .ok ((row.getD ci none).isNone ^^ isNot)
  | .inList column isNot sub =>
    (t.find column).bind fun ci ↦ applyIn F isNot sub (row.getD ci none)
  | .cmp n => evalCmp F t row n
  -- The other column is never read: the literal of the leaf is the one it starts with.
  | .cmpColumn column op _ =>
    (t.find column).bind fun ci ↦ compareCells F op (row.getD ci none) { isText := false }
  | .other eval => eval row

end

/-! ### Three-valued logic -/

def and3 : Option Bool → Option Bool → Option Bool
  | some false, _ => some false
  | _, some false => some false
  | some true, some true => some true
  | _, _ => none

def or3 (p q : Option Bool) : Option Bool := (and3 (p.map Bool.not) (q.map Bool.not)).map Bool.not

open Classical in
/-- SQL's comparison of two values: texts by their bytes, numbers by their order. -/
noncomputable def sqlCmp (op : CmpOp) (a b : Cell) : Bool :=
  match op with
  | .like => decide (Like.Matches a.s b.s)
  | _ =>
    if a.logical = 14 ∧ b.logical = 14 then holds op (realValue a.s) (realValue b.s)
    else if a.isText then holds op a.s b.s
    else holds op a.i.toInt b.i.toInt

/-- The OR of the comparisons with the rows: FALSE for no rows, whatever the probe. -/
noncomputable def isIn (sub : SubColumn) : Datum → Option Bool
  | none => if sub.values.isEmpty && !sub.hasNull then some false else none
  | some probe => if sub.values.any (sqlCmp .eq · probe) then some true
    else if sub.hasNull then none else some false

section

variable (t : Table) (row : Row)

noncomputable def sql : Pred → Option Bool
  | .and left right => and3 (sql left) (sql right)
  | .or left right => or3 (sql left) (sql right)
  | .not left => (sql left).map Bool.not
  | .isNull column isNot => (t.columnIndex column).map fun ci ↦ (row.getD ci none).isNone ^^ isNot
  | .inList column isNot sub => (t.columnIndex column).bind fun ci ↦
    (isIn sub (row.getD ci none)).map (· ^^ isNot)
  | .cmp n => (t.columnIndex n.column).bind fun ci ↦ t.columns[ci]?.bind fun col ↦
    (n.literal.bind fun lit ↦ (col.read lit).toOption).bind fun lit ↦
      (row.getD ci none).map fun lhs ↦ sqlCmp n.op lhs lit
  | .cmpColumn column op rhsColumn => (t.columnIndex column).bind fun ci ↦
    (t.columnIndex rhsColumn).bind fun cj ↦
      Option.map₂ (sqlCmp op) (row.getD ci none) (row.getD cj none)
  | .other _ => none

/-- Values that the engine compares as SQL does: no arrays, no documents, and for LIKE two texts of
which at most one has a `%`. -/
def Comparable (op : CmpOp) (a b : Cell) : Prop :=
  op ≠ .contains ∧ ¬(a.logical = 7 ∧ b.logical = 7) ∧
    (op = .like → a.isText = true ∧ (Like.percent ∉ a.s ∨ Like.percent ∉ b.s))

/-- Each comparison is one of a column with a literal, and its values are comparable. No NULL is
looked up with NOT IN among no rows. -/
def Plain : Pred → Prop
  | .and left right => Plain left ∧ Plain right
  | .or left right => Plain left ∧ Plain right
  | .not left => Plain left
  | .isNull _ _ => True
  | .inList column isNot sub => ∀ ci, t.columnIndex column = some ci →
    match row.getD ci none with
    | none => isNot = true → sub.values ≠ [] ∨ sub.hasNull = true
    | some probe => ∀ v ∈ sub.values, Comparable .eq v probe
  | .cmp n => n.quantifier = none ∧ ∀ ci col lit lhs, t.columnIndex n.column = some ci →
    t.columns[ci]? = some col → n.literal.bind (fun lit ↦ (col.read lit).toOption) = some lit →
    row.getD ci none = some lhs → Comparable n.op lhs lit
  | .cmpColumn _ _ _ => False
  | .other _ => False

/-- NOT takes an UNKNOWN operand for TRUE, and the connectives above it pass that on. -/
def Raised : Pred → Prop
  | .and left right => (Raised left ∧ (sql t row right = some true ∨ Raised right)) ∨
    (sql t row left = some true ∧ Raised right)
  | .or left right => (Raised left ∧ sql t row right ≠ some true) ∨
    (Raised right ∧ sql t row left ≠ some true)
  | .not left => sql t row left = none ∧ ¬ Raised left
  | _ => False

end

/-! ### The two agree -/

lemma and3_eq_true : ∀ {p q : Option Bool},
    and3 p q = some true ↔ p = some true ∧ q = some true := by decide

lemma or3_eq_true : ∀ {p q : Option Bool},
    or3 p q = some true ↔ p = some true ∨ q = some true := by decide

lemma or3_none : ∀ {p : Option Bool}, p ≠ some true → or3 none p = none ∧ or3 p none = none := by
  decide

variable {json : List UInt8 → List UInt8 → Bool} {t : Table} {row : Row} {b : Bool}

lemma Raised.sql_eq {p : Pred} (h : Raised t row p) : sql t row p = none := by
  induction p with
  | and left right ihl ihr =>
    rcases h with ⟨hleft, hright | hright⟩ | ⟨hleft, hright⟩
    · simp [sql, ihl hleft, hright, and3]
    · simp [sql, ihl hleft, ihr hright, and3]
    · simp [sql, hleft, ihr hright, and3]
  | or left right ihl ihr =>
    rcases h with ⟨hraised, hother⟩ | ⟨hraised, hother⟩
    · simp [sql, ihl hraised, or3_none hother]
    · simp [sql, ihr hraised, or3_none hother]
  | not left ih => simp [sql, h.1]
  | _ => exact h.elim

lemma leafTruth_eq_sqlCmp {op : CmpOp} {a c : Cell} (htext : a.isText = c.isText)
    (h : Comparable op a c) : leafTruth (engineFormats json) op a c = sqlCmp op a c := by
  obtain ⟨hdocument, harray, hlike⟩ := h
  by_cases hop : op = .like
  · subst hop
    obtain ⟨ha, hapart⟩ := hlike rfl
    rw [leafTruth, sqlCmp, ← htext, ha, Bool.true_and, Bool.true_and, Bool.eq_iff_iff]
    simp only [decide_eq_true_eq]
    exact Like.likeMatch_iff_of_apart hapart
  rw [leafTruth_eq _ ⟨hop, hdocument⟩, cmpDatum, if_neg harray]
  have hcmp : sqlCmp op a c =
      if a.logical = 14 ∧ c.logical = 14 then holds op (realValue a.s) (realValue c.s)
      else if a.isText then holds op a.s c.s else holds op a.i.toInt c.i.toInt := by
    cases op <;> first | rfl | exact absurd rfl hop
  rw [hcmp]
  split_ifs
  · rw [← applyCmp_threeWay, ← realCmp_eq]
    rfl
  · exact applyCmp_threeWay ..
  · exact applyCmp_threeWay ..

lemma compareCells_ok {op : CmpOp} {lhs : Datum} {rhs : Cell}
    (hcells : ∀ c, lhs = some c → Comparable op c rhs)
    (h : compareCells (engineFormats json) op lhs rhs = .ok b) :
    b = true ↔ lhs.map (sqlCmp op · rhs) = some true := by
  cases lhs with
  | none =>
    cases h
    simp
  | some c =>
    rw [compareCells] at h
    split_ifs at h with htext
    cases h
    rw [leafTruth_eq_sqlCmp htext (hcells c rfl), Option.map_some, Option.some_inj]

lemma bind_ok {α β : Type} {x : Except String α} {f : α → Except String β} {y : β}
    (h : x.bind f = .ok y) : ∃ a, x = .ok a ∧ f a = .ok y := by
  cases x with
  | error e => cases h
  | ok a => exact ⟨a, rfl, h⟩

lemma find_ok {name : String} {ci : ℕ} (h : t.find name = .ok ci) :
    t.columnIndex name = some ci := by
  rw [Table.find] at h
  split at h
  · cases h
    assumption
  · cases h

lemma matched_ok {probe : Cell} {values : List Cell}
    (hcells : ∀ v ∈ values, Comparable .eq v probe)
    (h : matched (engineFormats json) probe values = .ok b) :
    b = values.any (sqlCmp .eq · probe) := by
  induction values with
  | nil => cases h; rfl
  | cons v values ih =>
    obtain ⟨hv, hvalues⟩ := List.forall_mem_cons.mp hcells
    rw [matched] at h
    split_ifs at h with htext hequal
    all_goals
      have hleaf : decide (cmpDatum (engineFormats json) (some v) (some probe) = .eq) =
        sqlCmp .eq v probe := leafTruth_eq_sqlCmp htext hv
      rw [List.any_cons, ← hleaf]
    · cases h
      simp [hequal]
    · simp [hequal, ih hvalues h]

lemma applyIn_ok {probe : Datum} {isNot : Bool} {sub : SubColumn}
    (hcells : match probe with
      | none => isNot = true → sub.values ≠ [] ∨ sub.hasNull = true
      | some probe => ∀ v ∈ sub.values, Comparable .eq v probe)
    (h : applyIn (engineFormats json) isNot sub probe = .ok b) :
    b = true ↔ (isIn sub probe).map (· ^^ isNot) = some true := by
  cases probe with
  | none =>
    cases h
    rw [isIn]
    cases isNot <;> cases hvalues : sub.values <;> cases hnull : sub.hasNull <;> simp_all
  | some probe =>
    obtain ⟨found, hfound, h⟩ := bind_ok h
    cases h
    rw [isIn, ← matched_ok hcells hfound]
    cases found <;> cases isNot <;> cases sub.hasNull <;> decide

lemma evalCmp_ok {n : Comparison} (hplain : Plain t row (.cmp n))
    (h : evalCmp (engineFormats json) t row n = .ok b) :
    b = true ↔ sql t row (.cmp n) = some true := by
  obtain ⟨ci, hci, h⟩ := bind_ok h
  obtain ⟨hquant, hcells⟩ := hplain
  rw [hquant] at h
  cases hlit : n.literal with
  | none =>
    rw [hlit] at h
    cases h
    simp [sql, hlit]
  | some lit =>
    cases hcol : t.columns[ci]? with
    | none =>
      rw [hlit, hcol] at h
      cases h
      simp [sql, find_ok hci, hcol]
    | some col =>
      rw [hlit, hcol] at h
      obtain ⟨lit', hread, h⟩ := bind_ok h
      have hliteral : n.literal.bind (fun lit ↦ (col.read lit).toOption) = some lit' := by
        rw [hlit, Option.bind_some, hread]
        rfl
      rw [compareCells_ok (fun c ↦ hcells ci col lit' c (find_ok hci) hcol hliteral) h, sql,
        find_ok hci, Option.bind_some, hcol, Option.bind_some, hliteral, Option.bind_some]

lemma evalPred_ok {p : Pred} (hplain : Plain t row p)
    (h : evalPred (engineFormats json) t row p = .ok b) :
    b = true ↔ sql t row p = some true ∨ Raised t row p := by
  induction p generalizing b with
  | and left right ihl ihr =>
    obtain ⟨l, hl, h⟩ := bind_ok h
    have hleft := ihl hplain.1 hl
    rw [sql, and3_eq_true, Raised]
    cases l with
    | false =>
      cases h
      tauto
    | true =>
      have hright := ihr hplain.2 h
      tauto
  | or left right ihl ihr =>
    obtain ⟨l, hl, h⟩ := bind_ok h
    have hleft := ihl hplain.1 hl
    rw [sql, or3_eq_true, Raised]
    cases l with
    | true =>
      cases h
      tauto
    | false =>
      have hright := ihr hplain.2 h
      tauto
  | not left ih =>
    obtain ⟨l, hl, rfl⟩ : ∃ l, evalPred (engineFormats json) t row left = .ok l ∧ (!l) = b := by
      rw [evalPred] at h
      cases hl : evalPred (engineFormats json) t row left with
      | error e =>
        rw [hl] at h
        cases h
      | ok l =>
        rw [hl] at h
        exact ⟨l, rfl, Except.ok.inj h⟩
    have hleft := ih hplain hl
    have hraised := @Raised.sql_eq t row left
    rw [sql, Raised]
    cases hvalue : sql t row left with
    | none => cases l <;> simp_all
    | some value => cases value <;> simp_all
  | isNull column isNot =>
    obtain ⟨ci, hci, h⟩ := bind_ok h
    cases h
    simp [sql, find_ok hci, Raised]
  | inList column isNot sub =>
    obtain ⟨ci, hci, h⟩ := bind_ok h
    rw [applyIn_ok (hplain ci (find_ok hci)) h]
    simp [sql, find_ok hci, Raised]
  | cmp n =>
    rw [evalCmp_ok hplain h]
    simp [Raised]
  | cmpColumn => exact hplain.elim
  | other => exact hplain.elim

/-- A table of two columns of integers, the first of which may be NULL. -/
def twoInts : Table :=
  ⟨"t", [⟨"v", false, true, 0, .ok⟩, ⟨"w", false, false, 0, .ok⟩]⟩

def equals (column : String) (i : BitVec 64) : Pred :=
  .cmp { column := column, op := .eq, literal := some { isText := false, i := i } }

end Lockstep.Sql.Where
