import Lockstep.Library.ByteCodec
import Mathlib.Data.List.GetD
import Mathlib.Data.List.Induction

/-!
# Rows as bytes

The row codec of `query/sql/Catalog.hpp`. The key has the columns of the primary key, and the value
the others: a tag, a length of four bytes and the payload of each. A column that was added after a
row was written has no bytes in it, and is read as its default of the day.

Rows are read back as long as no text has `2 ^ 32` bytes (`row_codec_iff`).
-/

namespace Lockstep.Sql.RowCodec

open Library.ByteCodec List Option

inductive Datum
  | int (i : BitVec 64)
  | text (s : List UInt8)
  | null
  deriving DecidableEq

structure Column where
  isText : Bool
  default : Option Datum := none

/-- One column is the key, or all of `pkColumns` when there are two or more. -/
structure Table where
  id : ℕ
  columns : List Column
  pkIndex : ℕ
  pkColumns : List ℕ := []
  pkIndex_lt : pkIndex < columns.length
  pkColumns_lt : ∀ k ∈ pkColumns, k < columns.length

def putBE (width v : ℕ) : List UInt8 := (putLE width v).reverse

def getBE (bytes : List UInt8) : ℕ := getLE bytes.reverse

def tablePrefix (id : ℕ) : List UInt8 := 116 :: putBE 4 id ++ [58]

def encodePk : Datum → List UInt8
  | .int i => (if i.toInt < 0 then 0 else 1) :: putBE 8 (i ^^^ .intMin 64).toNat
  | .text s => s
  | .null => []

namespace Table

variable (t : Table)

def pk : Column := t.columns.get ⟨t.pkIndex, t.pkIndex_lt⟩

def compositePk : Bool := 1 < t.pkColumns.length

def isPkCol (c : ℕ) : Bool := if t.compositePk then c ∈ t.pkColumns else c = t.pkIndex

def encodeKeyRow (row : List Datum) : List UInt8 :=
  tablePrefix t.id ++ if t.compositePk then t.pkColumns.flatMap fun c ↦ encodePk (row.getD c .null)
    else encodePk (row.getD t.pkIndex .null)

end Table

def encodeDatum : Datum → List UInt8
  | .null => [0xFE]
  | .int i => 0 :: (putBE 4 8 ++ putBE 8 i.toNat)
  | .text s => 1 :: (putBE 4 s.length ++ s)

/-- The cells from column `c` on. -/
def encodeFields (isPk : ℕ → Bool) : ℕ → List Datum → List UInt8
  | _, [] => []
  | c, d :: row => (if isPk c then [] else encodeDatum d) ++ encodeFields isPk (c + 1) row

def encodeValue (t : Table) (row : List Datum) : List UInt8 := encodeFields t.isPkCol 0 row

/-! ### The decoders -/

def decodePkInt (bytes : List UInt8) : Datum :=
  .int (.ofNat 64 (getBE ((bytes.drop 1).take 8)) ^^^ .intMin 64)

def decodePk (t : Table) (suffix : List UInt8) : Datum :=
  if t.pk.isText then .text suffix else decodePkInt suffix

/-- What the loop over the key columns writes to column `c`, the last write if there are several. -/
def decodeCompositePk : List ℕ → List UInt8 → ℕ → Option Datum
  | [], _, _ => none
  | k :: ks, bytes, c =>
    (decodeCompositePk ks (bytes.drop 9) c).or (if c = k then some (decodePkInt bytes) else none)

def keyDatum (t : Table) (key : List UInt8) (c : ℕ) : Datum :=
  if t.compositePk then (decodeCompositePk t.pkColumns (key.drop 6) c).getD (.int 0)
  else decodePk t (key.drop 6)

def decodeDatum : List UInt8 → Datum × List UInt8
  | [] => (.null, [])
  | tag :: bytes =>
    if tag = 0xFE then (.null, bytes)
    else
      let len := getBE (bytes.take 4)
      let body := (bytes.drop 4).take len
      (if tag = 0 then .int (.ofNat 64 (getBE body)) else .text body, (bytes.drop 4).drop len)

def Column.pad (col : Column) : Datum := col.default.getD .null

/-- The bytes behind a field, which is not read. -/
def skipDatum : List UInt8 → List UInt8
  | [] => []
  | tag :: bytes => if tag = 0xFE then bytes else (bytes.drop 4).drop (getBE (bytes.take 4))

section Fields

variable (isPk : ℕ → Bool) (pk : ℕ → Datum)

/-- The cells from column `c` on. -/
def decodeFields : ℕ → List Column → List UInt8 → List Datum
  | _, [], _ => []
  | c, col :: cols, bytes =>
    if isPk c then pk c :: decodeFields (c + 1) cols bytes
    else if bytes = [] then col.pad :: decodeFields (c + 1) cols bytes
    else (decodeDatum bytes).1 :: decodeFields (c + 1) cols (decodeDatum bytes).2

def decodeFieldsProjected (composite : Bool) (need : ℕ → Bool) :
    ℕ → List Column → List UInt8 → List Datum
  | _, [], _ => []
  | c, col :: cols, bytes =>
    if isPk c then (if composite ∨ need c then pk c else .int 0) ::
      decodeFieldsProjected composite need (c + 1) cols bytes
    else if bytes = [] then (if need c then col.pad else .int 0) ::
      decodeFieldsProjected composite need (c + 1) cols bytes
    else (if need c then (decodeDatum bytes).1 else .int 0) ::
      decodeFieldsProjected composite need (c + 1) cols (skipDatum bytes)

end Fields

def decodeRow (t : Table) (key value : List UInt8) : List Datum :=
  decodeFields t.isPkCol (keyDatum t key) 0 t.columns value

def decodeRowProjected (t : Table) (key value : List UInt8) (need : ℕ → Bool) : List Datum :=
  decodeFieldsProjected t.isPkCol (keyDatum t key) t.compositePk need 0 t.columns value

/-! ### Fields -/

@[simp]
lemma length_putBE (width v : ℕ) : (putBE width v).length = width := by simp [putBE]

lemma getBE_putBE (width v : ℕ) : getBE (putBE width v) = v % 256 ^ width := by
  rw [getBE, putBE, reverse_reverse, getLE_putLE]

/-- A text whose length fits the four bytes. -/
def Datum.Short : Datum → Prop
  | .text s => s.length < 2 ^ 32
  | _ => True

lemma decodeDatum_int (i : BitVec 64) (rest : List UInt8) :
    decodeDatum (encodeDatum (.int i) ++ rest) = (.int i, rest) := by
  have hlen : getBE (putBE 4 8) = 8 := getBE_putBE 4 8
  have hval : getBE (putBE 8 i.toNat) = i.toNat :=
    (getBE_putBE 8 i.toNat).trans (Nat.mod_eq_of_lt i.isLt)
  simp [encodeDatum, decodeDatum, hlen, hval]

/-- The length is written modulo `2 ^ 32`. -/
lemma decodeDatum_text (s rest : List UInt8) : decodeDatum (encodeDatum (.text s) ++ rest) =
    (.text ((s ++ rest).take (s.length % 2 ^ 32)), (s ++ rest).drop (s.length % 2 ^ 32)) := by
  have hlen : getBE (putBE 4 s.length) = s.length % 2 ^ 32 := getBE_putBE 4 s.length
  simp [encodeDatum, decodeDatum, hlen]

lemma decodeDatum_encodeDatum {d : Datum} (h : d.Short) (rest : List UInt8) :
    decodeDatum (encodeDatum d ++ rest) = (d, rest) := by
  cases d with
  | null => rfl
  | int i => exact decodeDatum_int i rest
  | text s => rw [decodeDatum_text, Nat.mod_eq_of_lt h, take_left, drop_left]

lemma decodeDatum_ne {d : Datum} (h : ¬d.Short) (rest : List UInt8) :
    (decodeDatum (encodeDatum d ++ rest)).1 ≠ d := by
  cases d with
  | text s =>
    rw [decodeDatum_text]
    intro heq
    have hlen := congrArg length (Datum.text.inj heq)
    have hge := not_lt.mp h
    rw [length_take] at hlen
    omega
  | _ => exact absurd trivial h

lemma encodeDatum_ne_nil (d : Datum) (rest : List UInt8) : encodeDatum d ++ rest ≠ [] := by
  cases d <;> exact nofun

section Fields

variable {isPk : ℕ → Bool} {pk : ℕ → Datum}

/-- The cells that are in the value. -/
def valueCells (isPk : ℕ → Bool) : ℕ → List Datum → List Datum
  | _, [] => []
  | c, d :: row =>
    if isPk c then valueCells isPk (c + 1) row else d :: valueCells isPk (c + 1) row

lemma decodeFields_nil {c : ℕ} {cols : List Column} (h : ∀ j, c ≤ j → isPk j = false) :
    decodeFields isPk pk c cols [] = cols.map Column.pad := by
  induction cols generalizing c with
  | nil => rfl
  | cons col cols ih =>
    rw [decodeFields, h c le_rfl, if_neg Bool.false_ne_true, if_pos rfl,
      ih fun j hj ↦ h j (Nat.le_of_succ_le hj), map_cons]

lemma decodeFields_iff {c : ℕ} {cols more : List Column} {cells : List Datum}
    (hlen : cells.length = cols.length)
    (hkey : ∀ j d, cells[j]? = some d → isPk (c + j) = true → pk (c + j) = d)
    (hmore : ∀ j, c + cells.length ≤ j → isPk j = false) :
    decodeFields isPk pk c (cols ++ more) (encodeFields isPk c cells) =
      cells ++ more.map Column.pad ↔ ∀ d ∈ valueCells isPk c cells, d.Short := by
  induction cells generalizing c cols with
  | nil =>
    obtain rfl := length_eq_zero_iff.mp hlen.symm
    have hpad : decodeFields isPk pk c more [] = more.map Column.pad := decodeFields_nil hmore
    simpa [encodeFields, valueCells] using hpad
  | cons d cells ih =>
    obtain ⟨col, cols, rfl⟩ : ∃ col rest, cols = col :: rest :=
      exists_cons_of_length_pos (hlen ▸ Nat.succ_pos cells.length)
    have hrest := ih (c := c + 1) (Nat.succ.inj hlen)
      (fun j e he hpk ↦ by rw [Nat.add_right_comm] at hpk ⊢; exact hkey (j + 1) e he hpk)
      (fun j hj ↦ hmore j (by rw [length_cons]; omega))
    rw [cons_append, cons_append, encodeFields, decodeFields, valueCells]
    by_cases hpk : isPk c = true
    · have hd : pk c = d := hkey 0 d rfl hpk
      rw [if_pos hpk, if_pos hpk, if_pos hpk, nil_append, hd, cons_inj_right, hrest]
    rw [if_neg hpk, if_neg hpk, if_neg hpk, if_neg (encodeDatum_ne_nil d _), forall_mem_cons]
    by_cases hshort : d.Short
    · rw [decodeDatum_encodeDatum hshort, cons_inj_right, hrest]
      exact (and_iff_right hshort).symm
    · refine iff_of_false (fun heq ↦ ?_) fun h ↦ hshort h.1
      exact decodeDatum_ne hshort _ (cons.inj heq).1

lemma skipDatum_eq (bytes : List UInt8) : skipDatum bytes = (decodeDatum bytes).2 := by
  cases bytes with
  | nil => rfl
  | cons tag bytes =>
    rw [skipDatum, decodeDatum]
    split_ifs <;> rfl

/-- The projecting decoder steps through the bytes as the other one does. -/
lemma projected_getElem? {composite : Bool} {need : ℕ → Bool} {c j : ℕ} {cols : List Column}
    {bytes : List UInt8} (h : need (c + j) = true) :
    (decodeFieldsProjected isPk pk composite need c cols bytes)[j]? =
      (decodeFields isPk pk c cols bytes)[j]? := by
  induction cols generalizing c j bytes with
  | nil => rfl
  | cons col cols ih =>
    rw [decodeFieldsProjected, decodeFields, skipDatum_eq]
    cases j with
    | zero => split_ifs <;> simp_all
    | succ j =>
      have hneed : need (c + 1 + j) = true := by rwa [Nat.add_right_comm]
      split_ifs <;> exact ih hneed

end Fields

/-! ### Keys -/

lemma decodePkInt_encodePk (i : BitVec 64) (rest : List UInt8) :
    decodePkInt (encodePk (.int i) ++ rest) = .int i := by
  have hval : getBE (putBE 8 (i ^^^ .intMin 64).toNat) = (i ^^^ .intMin 64).toNat :=
    (getBE_putBE 8 _).trans (Nat.mod_eq_of_lt (BitVec.isLt _))
  simp only [decodePkInt, encodePk, cons_append, drop_succ_cons, drop_zero]
  rw [take_left' (length_putBE 8 _), hval, BitVec.ofNat_toNat, BitVec.setWidth_eq, BitVec.xor_assoc,
    BitVec.xor_self, BitVec.xor_zero]

lemma decodeCompositePk_of_notMem {ks : List ℕ} {c : ℕ} (h : c ∉ ks) (bytes : List UInt8) :
    decodeCompositePk ks bytes c = none := by
  induction ks generalizing bytes with
  | nil => rfl
  | cons k ks ih =>
    rw [mem_cons, not_or] at h
    rw [decodeCompositePk, ih h.2, if_neg h.1, or_none]

lemma decodeCompositePk_encode {row : List Datum} {ks : List ℕ} {c : ℕ}
    (hint : ∀ k ∈ ks, ∃ i, row.getD k .null = .int i) (hc : c ∈ ks) :
    decodeCompositePk ks (ks.flatMap fun k ↦ encodePk (row.getD k .null)) c =
      some (row.getD c .null) := by
  induction ks with
  | nil => cases hc
  | cons k ks ih =>
    obtain ⟨i, hi⟩ := hint k mem_cons_self
    have hdrop (rest : List UInt8) : (encodePk (.int i) ++ rest).drop 9 = rest :=
      drop_left' (by simp [encodePk])
    rw [decodeCompositePk, flatMap_cons, hi, hdrop]
    by_cases hmem : c ∈ ks
    · rw [ih (fun k' hk ↦ hint k' (mem_cons_of_mem k hk)) hmem, some_or]
    · obtain rfl := (mem_cons.mp hc).resolve_right hmem
      rw [decodeCompositePk_of_notMem hmem, none_or, if_pos rfl, decodePkInt_encodePk, hi]

/-- A row of the table's types, where the columns of the key are not NULL. -/
structure Row (t : Table) where
  cells : List Datum
  length_eq : cells.length = t.columns.length
  composite : t.compositePk = true → ∀ k ∈ t.pkColumns, ∃ i, cells.getD k .null = .int i
  single : t.compositePk = false → if t.pk.isText
    then ∃ s, cells.getD t.pkIndex .null = .text s else ∃ i, cells.getD t.pkIndex .null = .int i

/-- `ALTER TABLE ADD COLUMN`. -/
def Table.append (t : Table) (more : List Column) : Table where
  id := t.id
  columns := t.columns ++ more
  pkIndex := t.pkIndex
  pkColumns := t.pkColumns
  pkIndex_lt := by rw [length_append]; exact Nat.lt_add_right _ t.pkIndex_lt
  pkColumns_lt k hk := by rw [length_append]; exact Nat.lt_add_right _ (t.pkColumns_lt k hk)

lemma Table.append_nil (t : Table) : t.append [] = t := by
  cases t
  simp [append]

section Rows

variable {t : Table} (row : Row t) (more : List Column)

lemma keyDatum_append (key : List UInt8) :
    keyDatum (t.append more) key = keyDatum t key := by
  have hpk : (t.append more).pk = t.pk := getElem_append_left t.pkIndex_lt
  ext1 c
  rw [keyDatum, decodePk, hpk]
  rfl

lemma Row.keyDatum_eq {c : ℕ} (hc : t.isPkCol c = true) :
    keyDatum t (t.encodeKeyRow row.cells) c = row.cells.getD c .null := by
  have hdrop (rest : List UInt8) : (tablePrefix t.id ++ rest).drop 6 = rest :=
    drop_left' (by simp [tablePrefix])
  rw [keyDatum, Table.encodeKeyRow, hdrop]
  rw [Table.isPkCol] at hc
  by_cases hcomp : t.compositePk = true
  · rw [if_pos hcomp] at hc ⊢
    rw [if_pos hcomp, decodeCompositePk_encode (row.composite hcomp) (of_decide_eq_true hc),
      getD_some]
  rw [if_neg hcomp] at hc ⊢
  obtain rfl := of_decide_eq_true hc
  have hsingle := row.single (eq_false_of_ne_true hcomp)
  rw [if_neg hcomp, decodePk]
  by_cases htext : t.pk.isText = true
  · rw [if_pos htext] at hsingle ⊢
    obtain ⟨s, hs⟩ := hsingle
    rw [hs, encodePk]
  · rw [if_neg htext] at hsingle ⊢
    obtain ⟨i, hi⟩ := hsingle
    rw [hi, ← append_nil (encodePk _), decodePkInt_encodePk]

lemma isPkCol_of_le {j : ℕ} (hj : t.columns.length ≤ j) : t.isPkCol j = false := by
  rw [Table.isPkCol]
  split_ifs
  · exact decide_eq_false fun hmem ↦ (t.pkColumns_lt j hmem).not_ge hj
  · exact decide_eq_false fun heq ↦ (heq ▸ t.pkIndex_lt).not_ge hj

/-- Reading the bytes of a row with columns that were added behind it. -/
lemma Row.decodeRow_append_iff :
    decodeRow (t.append more) (t.encodeKeyRow row.cells) (encodeValue t row.cells) =
      row.cells ++ more.map Column.pad ↔ ∀ d ∈ valueCells t.isPkCol 0 row.cells, d.Short := by
  rw [decodeRow, keyDatum_append]
  refine decodeFields_iff row.length_eq (fun j d hd hpk ↦ ?_) fun j hj ↦ ?_
  · rw [Nat.zero_add] at hpk ⊢
    rw [row.keyDatum_eq hpk, getD_eq_getElem?_getD, hd, getD_some]
  · rw [Nat.zero_add, row.length_eq] at hj
    have hout : t.isPkCol j = false := isPkCol_of_le hj
    exact hout

end Rows

theorem row_codec_iff (t : Table) (row : Row t) :
    let key := t.encodeKeyRow row.cells
    let value := encodeValue t row.cells
    (decodeRow t key value = row.cells ∧
      (∀ need c, need c = true →
        (decodeRowProjected t key value need)[c]? = (decodeRow t key value)[c]?) ∧
      ∀ more, decodeRow (t.append more) key value = row.cells ++ more.map Column.pad) ↔
    ∀ s, .text s ∈ valueCells t.isPkCol 0 row.cells → s.length < 2 ^ 32 := by
  intro key value
  have hshort : (∀ d ∈ valueCells t.isPkCol 0 row.cells, d.Short) ↔
      ∀ s, .text s ∈ valueCells t.isPkCol 0 row.cells → s.length < 2 ^ 32 := by
    refine ⟨fun h s hs ↦ h _ hs, fun h d hd ↦ ?_⟩
    cases d with
    | text s => exact h s hd
    | _ => trivial
  have hrow := row.decodeRow_append_iff []
  rw [Table.append_nil, map_nil, append_nil] at hrow
  rw [← hshort]
  refine ⟨fun h ↦ hrow.mp h.1, fun h ↦ ⟨hrow.mpr h, fun need c hc ↦ ?_, fun more ↦ ?_⟩⟩
  · exact projected_getElem? (by rwa [Nat.zero_add])
  · exact (row.decodeRow_append_iff more).mpr h

def intText : Table := ⟨1, [⟨false, none⟩, ⟨true, none⟩], 0, [], by decide, nofun⟩

def longRow : Row intText :=
  ⟨[.int 0, .text (replicate (2 ^ 32) 0)], rfl, nofun, fun _ ↦ ⟨0, rfl⟩⟩

/-- A text of `2 ^ 32` bytes has the length 0. -/
theorem long_text_lost : decodeRow intText (intText.encodeKeyRow longRow.cells)
    (encodeValue intText longRow.cells) ≠ longRow.cells := by
  intro h
  have hrow := longRow.decodeRow_append_iff []
  have hmem : Datum.text (replicate (2 ^ 32) 0) ∈ valueCells intText.isPkCol 0 longRow.cells :=
    mem_singleton.mpr rfl
  have hlt : (replicate (2 ^ 32) (0 : UInt8)).length < 2 ^ 32 := hrow.mp h _ hmem
  rw [length_replicate] at hlt
  exact hlt.false

/-! ### Defaults -/

/-- `ALTER COLUMN SET DEFAULT`, and `DROP DEFAULT` for `none`. -/
def Table.alterDefault (t : Table) (i : ℕ) (d : Option Datum) : Table where
  id := t.id
  columns := t.columns.modify i fun col ↦ { col with default := d }
  pkIndex := t.pkIndex
  pkColumns := t.pkColumns
  pkIndex_lt := by rw [length_modify]; exact t.pkIndex_lt
  pkColumns_lt := by rw [length_modify]; exact t.pkColumns_lt

/-- A table with its stored rows. -/
structure Store where
  table : Table
  rows : List (List UInt8 × List UInt8) := []

inductive Stmt
  | insert (cells : List Datum)
  | update (key : List UInt8) (f : List Datum → List Datum)
  | addColumn (col : Column)
  | alterDefault (i : ℕ) (d : Option Datum)

def Store.exec (s : Store) : Stmt → Store
  | .insert cells =>
    { s with rows := s.rows ++ [(s.table.encodeKeyRow cells, encodeValue s.table cells)] }
  | .update key f => { s with rows := s.rows.map fun kv ↦
      if kv.1 = key then (key, encodeValue s.table (f (decodeRow s.table kv.1 kv.2))) else kv }
  | .addColumn col => { s with table := s.table.append [col] }
  | .alterDefault i d => { s with table := s.table.alterDefault i d }

/-- `SELECT *`, from which every other `SELECT` is computed. -/
def Store.select (s : Store) : List (List Datum) := s.rows.map fun kv ↦ decodeRow s.table kv.1 kv.2

/-- The bytes that are left when the decoder comes to the column `n` columns behind `c`. -/
def bytesAt (isPk : ℕ → Bool) : ℕ → ℕ → List UInt8 → List UInt8
  | _, 0, bytes => bytes
  | c, n + 1, bytes => bytesAt isPk (c + 1) n (if isPk c then bytes else skipDatum bytes)

lemma decodeFields_modify_iff {isPk : ℕ → Bool} {pk : ℕ → Datum} {f : Column → Column} {c i : ℕ}
    {cols : List Column} {bytes : List UInt8} :
    decodeFields isPk pk c (cols.modify i f) bytes = decodeFields isPk pk c cols bytes ↔
      ∀ col, cols[i]? = some col →
        isPk (c + i) = true ∨ (f col).pad = col.pad ∨ bytesAt isPk c i bytes ≠ [] := by
  induction cols generalizing c i bytes with
  | nil => simp
  | cons col cols ih =>
    cases i with
    | zero =>
      rw [modify_zero_cons, decodeFields, decodeFields, bytesAt]
      by_cases hpk : isPk c = true
      · simp [hpk]
      · by_cases hnil : bytes = [] <;> simp [hpk, hnil]
    | succ i =>
      have hstep := @ih (c + 1) i (if isPk c then bytes else skipDatum bytes)
      rw [modify_succ_cons, decodeFields, decodeFields, bytesAt, ← skipDatum_eq]
      rw [Nat.add_assoc, Nat.add_comm 1 i] at hstep
      by_cases hpk : isPk c = true
      · simpa [hpk] using hstep
      · by_cases hnil : bytes = []
        · simpa [hpk, hnil, skipDatum] using hstep
        · simpa [hpk, hnil] using hstep

lemma keyDatum_alterDefault (t : Table) (i : ℕ) (d : Option Datum) (key : List UInt8) :
    keyDatum (t.alterDefault i d) key = keyDatum t key := by
  have hpk : (t.alterDefault i d).pk.isText = t.pk.isText := by
    simp only [Table.pk, Table.alterDefault, get_eq_getElem, getElem_modify]
    split_ifs <;> rfl
  ext1 c
  rw [keyDatum, decodePk, hpk]
  rfl

lemma decodeRow_alterDefault_iff (t : Table) (i : ℕ) (d : Option Datum) (key value : List UInt8) :
    decodeRow (t.alterDefault i d) key value = decodeRow t key value ↔
      ∀ col, t.columns[i]? = some col → t.isPkCol i = true ∨ d.getD .null = col.pad ∨
        bytesAt t.isPkCol 0 i value ≠ [] := by
  have hiff := @decodeFields_modify_iff t.isPkCol (keyDatum t key)
    (fun col ↦ { col with default := d }) 0 i t.columns value
  rw [Nat.zero_add] at hiff
  rw [decodeRow, keyDatum_alterDefault]
  exact hiff

lemma bytesAt_nil (isPk : ℕ → Bool) (c n : ℕ) : bytesAt isPk c n [] = [] := by
  induction n generalizing c with
  | zero => rfl
  | succ n ih =>
    rw [bytesAt, skipDatum, ite_self]
    exact ih (c + 1)

/-- A row has bytes for a column exactly when the column was there when the row was written. -/
lemma bytesAt_encodeFields_ne_nil_iff {isPk : ℕ → Bool} {c n : ℕ} {cells : List Datum}
    (hshort : ∀ d ∈ cells, d.Short) (hcol : isPk (c + n) = false) :
    bytesAt isPk c n (encodeFields isPk c cells) ≠ [] ↔ n < cells.length := by
  induction cells generalizing c n with
  | nil => simp [encodeFields, bytesAt_nil]
  | cons d cells ih =>
    obtain ⟨hd, hcells⟩ := forall_mem_cons.mp hshort
    rw [encodeFields]
    cases n with
    | zero =>
      rw [bytesAt, if_neg (by simpa using hcol)]
      exact iff_of_true (encodeDatum_ne_nil d _) (Nat.succ_pos _)
    | succ n =>
      have hrest : (if isPk c then (if isPk c then [] else encodeDatum d) ++
          encodeFields isPk (c + 1) cells else skipDatum ((if isPk c then [] else encodeDatum d) ++
          encodeFields isPk (c + 1) cells)) = encodeFields isPk (c + 1) cells := by
        split_ifs
        · rfl
        · rw [skipDatum_eq, decodeDatum_encodeDatum hd]
      rw [bytesAt, hrest, ih hcells (by rwa [Nat.add_right_comm]), length_cons,
        Nat.succ_lt_succ_iff]

/-- The statement writes a row with these cells. -/
def Stmt.Writes (s : Store) (row : List Datum) : Stmt → Prop
  | .insert cells => row = cells
  | .update key f => ∃ kv ∈ s.rows, kv.1 = key ∧ row = f (decodeRow s.table kv.1 kv.2)
  | .addColumn _ | .alterDefault _ _ => False

/-- The bytes of a row are those of the statement that wrote it last. -/
lemma rows_written (t : Table) (history : List Stmt) :
    let s := history.foldl Store.exec { table := t }
    s.table.isPkCol = t.isPkCol ∧ ∀ kv ∈ s.rows, ∃ before stmt after cells,
      history = before ++ stmt :: after ∧
        stmt.Writes (before.foldl Store.exec { table := t }) cells ∧
          kv.2 = encodeFields t.isPkCol 0 cells := by
  induction history using reverseRec with
  | nil => exact ⟨rfl, nofun⟩
  | append_singleton history stmt ih =>
    obtain ⟨hpk, hrows⟩ := ih
    rw [foldl_append, foldl_cons, foldl_nil]
    have hold : ∀ kv ∈ (history.foldl Store.exec { table := t }).rows, ∃ before first after cells,
        history ++ [stmt] = before ++ first :: after ∧
          first.Writes (before.foldl Store.exec { table := t }) cells ∧
            kv.2 = encodeFields t.isPkCol 0 cells := by
      intro kv hkv
      obtain ⟨before, first, after, cells, rfl, hwrites⟩ := hrows kv hkv
      exact ⟨before, first, after ++ [stmt], cells, by simp, hwrites⟩
    cases stmt with
    | insert cells =>
      refine ⟨hpk, forall_mem_append.mpr ⟨hold, forall_mem_singleton.mpr ?_⟩⟩
      exact ⟨history, _, [], cells, rfl, rfl, by rw [← hpk]; rfl⟩
    | update key f =>
      refine ⟨hpk, forall_mem_map.mpr fun kv hkv ↦ ?_⟩
      split_ifs with hkey
      · exact ⟨history, _, [], _, rfl, ⟨kv, hkv, hkey, rfl⟩, by rw [← hpk]; rfl⟩
      · exact hold kv hkv
    | addColumn | alterDefault => exact ⟨hpk, hold⟩

end Lockstep.Sql.RowCodec
