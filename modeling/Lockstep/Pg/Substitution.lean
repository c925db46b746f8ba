import Lockstep.Sql.Operands

/-!
# Bound parameters in the statement text

The extended protocol of `query/wire/PgWire.hpp` puts the values of bound parameters into the text
of a prepared statement: `pg_param_literal` writes a value as a literal, a number as it came and
everything else between quotes, and `pg_substitute_params` replaces `$1`, `$2`, … outside quotes.
-/

namespace Lockstep.Pg

open Sql OpensLiteral List Option

variable {inStr : Bool} {c : Char} {before rest text : Text}

abbrev Value := Option Text

def nullLiteral : Text := ['N', 'U', 'L', 'L']

def scanNumeric : Text → Bool → Bool → Bool
  | [], digit, _ => digit
  | c :: rest, digit, dot =>
    if isDigit c then scanNumeric rest true dot
    else if c == '.' && !dot then scanNumeric rest digit true
    else false

def unsigned (v : Text) : Text := v.drop (if starts isSign v then 1 else 0)

def isNumeric (v : Text) : Bool := scanNumeric (unsigned v) false false

def doubleQuotes (v : Text) : Text := v.flatMap fun c ↦ if c = quote then [quote, quote] else [c]

/-- A number stands unquoted, a text between quotes. -/
def pgParamLiteral : Value → Text
  | none => nullLiteral
  | some v =>
    if v = [] then [quote, quote]
    else if isNumeric v then v
    else quote :: (doubleQuotes v ++ [quote])

/-! ### Substitution -/

def isNonzeroDigit (c : Char) : Bool := '1' ≤ c && c ≤ '9'

def parameterIndex (digits : Text) : ℕ :=
  digits.foldl (fun n c ↦ (n * 10 + (c.toNat - '0'.toNat)) % 2 ^ 32) 0

def literalAt (lits : List Text) (n : ℕ) : Text :=
  if 1 ≤ n ∧ n ≤ lits.length then lits.getD (n - 1) nullLiteral else nullLiteral

def substituteAux (lits : List Text) : ℕ → Bool → Text → Text
  | 0, _, _ => []
  | _ + 1, _, [] => []
  | fuel + 1, inStr, c :: rest =>
    if c = quote then c :: substituteAux lits fuel (!inStr) rest
    else if inStr = false ∧ c = '$' ∧ starts isNonzeroDigit rest = true then
      literalAt lits (parameterIndex (takeDigits rest).1) ++
        substituteAux lits fuel inStr (takeDigits rest).2
    else c :: substituteAux lits fuel inStr rest

/-- Replaces `$n` outside string literals. -/
def substitute (lits : List Text) (inStr : Bool) (text : Text) : Text :=
  substituteAux lits text.length inStr text

def pgSubstituteParams (text : Text) (lits : List Text) : Text := substitute lits false text

section Substitute

variable (lits : List Text)

lemma length_takeDigits_le (text : Text) : (takeDigits text).2.length ≤ text.length := by
  have := congrArg length (takeDigits_append text)
  rw [length_append] at this
  omega

lemma substituteAux_of_le {fuel : ℕ} (inStr : Bool) (h : text.length ≤ fuel) :
    substituteAux lits fuel inStr text = substitute lits inStr text := by
  have hall : ∀ (n fuel : ℕ) (inStr : Bool) (text : Text), text.length ≤ n → n ≤ fuel →
      substituteAux lits fuel inStr text = substituteAux lits n inStr text := by
    intro n
    induction n with
    | zero =>
      intro fuel inStr text hn _
      rw [length_eq_zero_iff.mp (Nat.le_zero.mp hn)]
      cases fuel <;> rfl
    | succ n ih =>
      intro fuel inStr text hn hfuel
      obtain ⟨fuel, rfl⟩ : ∃ m, fuel = m + 1 := ⟨fuel - 1, by omega⟩
      cases text with
      | nil => rfl
      | cons c rest =>
        have hrest : rest.length ≤ n := Nat.le_of_succ_le_succ hn
        have hdigits := (length_takeDigits_le rest).trans hrest
        have hle : n ≤ fuel := Nat.le_of_succ_le_succ hfuel
        simp only [substituteAux, ih fuel _ _ hrest hle, ih fuel _ _ hdigits hle]
  exact hall text.length fuel inStr text le_rfl h

@[simp] lemma substitute_nil (inStr : Bool) : substitute lits inStr [] = [] := rfl

lemma substitute_quote (inStr : Bool) (rest : Text) :
    substitute lits inStr (quote :: rest) = quote :: substitute lits (!inStr) rest := by
  simp [substitute, substituteAux]

lemma substitute_placeholder (h : starts isNonzeroDigit rest = true) :
    substitute lits false ('$' :: rest) =
      literalAt lits (parameterIndex (takeDigits rest).1) ++
        substitute lits false (takeDigits rest).2 := by
  rw [substitute, length_cons, substituteAux, if_neg (by decide), if_pos ⟨rfl, rfl, h⟩,
    substituteAux_of_le lits false (length_takeDigits_le rest)]

lemma substitute_copy (hc : c ≠ quote)
    (h : ¬(inStr = false ∧ c = '$' ∧ starts isNonzeroDigit rest = true)) :
    substitute lits inStr (c :: rest) = c :: substitute lits inStr rest := by
  rw [substitute, length_cons, substituteAux, if_neg hc, if_neg h,
    substituteAux_of_le lits inStr le_rfl]

lemma substitute_append {run : Text} (hrun : ∀ c ∈ run, c ≠ quote ∧ c ≠ '$') (inStr : Bool)
    (rest : Text) : substitute lits inStr (run ++ rest) = run ++ substitute lits inStr rest := by
  induction run with
  | nil => rfl
  | cons c run ih =>
    have hc := hrun c mem_cons_self
    rw [cons_append, substitute_copy lits hc.1 fun h ↦ hc.2 h.2.1,
      ih (forall_mem_cons.mp hrun).2, cons_append]

end Substitute

def joinsRight (after : Text) : Bool :=
  starts (fun c ↦ isIdentCont c || c == quote || c == '$' || c == '.') after

def separateFrom (before : Text) (inStr : Bool) : Text → Bool
  | [] => true
  | c :: rest =>
    (if inStr = false ∧ c = '$' ∧ starts isNonzeroDigit rest = true then
        !joinsLeft before && !joinsRight (takeDigits rest).2
      else true) &&
    separateFrom (c :: before) (if c = quote then !inStr else inStr) rest

/-- No placeholder touches what would join its token. -/
def separate (text : Text) : Bool := separateFrom [] false text

lemma separateFrom_tail (h : separateFrom before inStr (c :: rest) = true) :
    separateFrom (c :: before) (if c = quote then !inStr else inStr) rest = true := by
  rw [separateFrom, Bool.and_eq_true] at h
  exact h.2

lemma separateFrom_placeholder (h : separateFrom before false ('$' :: rest) = true)
    (hrest : starts isNonzeroDigit rest = true) :
    joinsLeft before = false ∧ joinsRight (takeDigits rest).2 = false := by
  rw [separateFrom, Bool.and_eq_true, if_pos ⟨rfl, rfl, hrest⟩] at h
  simpa using h.1

lemma separateFrom_append {run : Text} (hrun : ∀ c ∈ run, c ≠ quote)
    (h : separateFrom before inStr (run ++ rest) = true) :
    separateFrom (run.reverse ++ before) inStr rest = true := by
  induction run generalizing before with
  | nil => exact h
  | cons c run ih =>
    have htail := separateFrom_tail h
    rw [if_neg (hrun c mem_cons_self)] at htail
    have := ih (forall_mem_cons.mp hrun).2 htail
    simpa using this

lemma scanNumeric_starts {v : Text} {dot : Bool} (h : scanNumeric v false dot = true) :
    starts (fun c ↦ isDigit c || c == '.') v = true := by
  cases v with
  | nil => cases h
  | cons c rest =>
    rw [starts_cons]
    by_contra hc
    rw [Bool.not_eq_true, Bool.or_eq_false_iff] at hc
    simp [scanNumeric, hc.1, hc.2] at h

lemma opensLiteral_numeric {v : Text} (h : isNumeric v = true) (rest : Text) :
    OpensLiteral (v ++ rest) := by
  have hstarts := scanNumeric_starts h
  cases v with
  | nil => cases h
  | cons c v =>
    by_cases hsign : isSign c = true
    · have hc : c = '+' ∨ c = '-' := by simpa [isSign] using hsign
      refine intro (by tauto) fun _ ↦ ?_
      have htail : starts (fun c ↦ isDigit c || c == '.') v = true := by
        simpa [unsigned, hsign] using hstarts
      cases v with
      | nil => cases htail
      | cons x v =>
        show (x == '>') = false
        rw [beq_eq_false_iff_ne]
        rintro rfl
        exact absurd htail (by simp [isDigit])
    · have hc : isDigit c = true ∨ c = '.' := by
        simpa [unsigned, hsign] using hstarts
      refine intro (by tauto) fun hminus ↦ ?_
      rw [hminus] at hsign
      exact absurd rfl hsign

lemma opensLiteral_literal (v : Value) (rest : Text) :
    OpensLiteral (pgParamLiteral v ++ rest) := by
  have hquote : ∀ text, OpensLiteral (quote :: text) := fun text ↦
    intro (by simp) fun h ↦ absurd h (by decide)
  cases v with
  | none => exact intro (by simp) fun h ↦ absurd h (by decide)
  | some v =>
    simp only [pgParamLiteral]
    split_ifs with hnil hnumeric
    · exact hquote _
    · exact opensLiteral_numeric hnumeric rest
    · exact hquote _

def parameter (params : List Value) (n : ℕ) : Value :=
  if 1 ≤ n then (params[n - 1]?).join else none

lemma literalAt_map (params : List Value) (n : ℕ) :
    literalAt (params.map pgParamLiteral) n = pgParamLiteral (parameter params n) := by
  unfold literalAt parameter
  by_cases hn : 1 ≤ n
  · by_cases hle : n ≤ params.length
    · have hlt : n - 1 < params.length := by omega
      simp [hn, hle, hlt]
    · have hge : params.length ≤ n - 1 := by omega
      simp [hn, hle, getElem?_eq_none hge, pgParamLiteral]
  · simp [hn, pgParamLiteral]

/-! ### The characters of a lexeme are copied -/

def Plain (c : Char) : Prop := c ≠ quote ∧ c ≠ '$'

lemma plain_of {p : Char → Bool} (hquote : p quote = false) (hdollar : p '$' = false)
    (hc : p c = true) : Plain c := by
  constructor
  · rintro rfl
    cases hquote.symm.trans hc
  · rintro rfl
    cases hdollar.symm.trans hc

lemma plain_of_isIdentCont (hc : isIdentCont c = true) : Plain c :=
  plain_of (by decide) (by decide) hc

lemma plain_of_isDigit (hc : isDigit c = true) : Plain c :=
  plain_of (by decide) (by decide) hc

section

variable (text)

lemma takeSign_plain : ∀ c ∈ (takeSign text).1, Plain c := by
  unfold takeSign
  split
  · intro c hc
    rw [mem_singleton.mp hc]
    exact ⟨by decide, by decide⟩
  · exact nofun

lemma takeDigits_plain : ∀ c ∈ (takeDigits text).1, Plain c :=
  fun c hc ↦ plain_of_isDigit (takeDigits_isDigit text c hc)

lemma takeFraction_plain : ∀ c ∈ (takeFraction text).1, Plain c := by
  unfold takeFraction
  split
  · split_ifs
    · exact forall_mem_cons.mpr ⟨⟨by decide, by decide⟩, takeDigits_plain _⟩
    · exact nofun
  · exact nofun

lemma takeExpSign_plain : ∀ c ∈ (takeExpSign text).1, Plain c := by
  unfold takeExpSign
  split
  · split_ifs with hsign
    · exact forall_mem_singleton.mpr (plain_of (p := isSign) (by decide) (by decide) hsign)
    · exact nofun
  · exact nofun

lemma takeExponent_plain : ∀ c ∈ (takeExponent text).1, Plain c := by
  unfold takeExponent
  split
  · split_ifs with h
    · rw [Bool.and_eq_true] at h
      refine forall_mem_cons.mpr ⟨plain_of_isIdentCont (isIdentCont_of_isExpMark h.1), ?_⟩
      exact forall_mem_append.mpr ⟨takeExpSign_plain _, takeDigits_plain _⟩
    · exact nofun
  · exact nofun

lemma lexInt_plain : ∀ c ∈ (lexInt text).1.raw, Plain c := by
  rw [lexInt_of_parts (show takeSign text = (_, (takeSign text).2) from rfl) rfl rfl rfl]
  intro c hc
  simp only [mem_append] at hc
  rcases hc with hc | hc | hc | hc
  · exact takeSign_plain _ c hc
  · exact takeDigits_plain _ c hc
  · exact takeFraction_plain _ c hc
  · exact takeExponent_plain _ c hc

end

lemma symAt_plain (c : Char) (ahead : Text) :
    ∀ x ∈ ahead.take (symAt c ahead).2, Plain x := by
  have hone : ∀ {x : Char}, Plain x → ahead.head? = some x → ∀ y ∈ ahead.take 1, Plain y := by
    intro x hx hhead y hy
    cases ahead with
    | nil => cases hhead
    | cons z ahead =>
      obtain rfl : z = x := some.inj hhead
      rw [mem_singleton.mp hy]
      exact hx
  have htwo : ∀ {x x' : Char}, Plain x → Plain x' → ahead.head? = some x →
      ahead.tail.head? = some x' → ∀ y ∈ ahead.take 2, Plain y := by
    intro x x' hx hx' hhead htail y hy
    match ahead with
    | [] => cases hhead
    | [_] => cases htail
    | z :: z' :: ahead =>
      obtain rfl : z = x := some.inj hhead
      obtain rfl : z' = x' := some.inj htail
      rcases mem_cons.mp hy with rfl | hy
      · exact hx
      · rw [mem_singleton.mp hy]
        exact hx'
  have hite : ∀ {p : Prop} [Decidable p] {a b : Token × ℕ},
      (p → ∀ x ∈ ahead.take a.2, Plain x) → (∀ x ∈ ahead.take b.2, Plain x) →
        ∀ x ∈ ahead.take (if p then a else b).2, Plain x := by
    intro p _ a b ha hb
    split_ifs with hp
    exacts [ha hp, hb]
  have hzero : ∀ token : Token, ∀ x ∈ ahead.take (token, 0).2, Plain x :=
    nofun
  have hcolon : Plain ':' := ⟨by decide, by decide⟩
  have heq : Plain '=' := ⟨by decide, by decide⟩
  have hgt : Plain '>' := ⟨by decide, by decide⟩
  have hminus : Plain '-' := ⟨by decide, by decide⟩
  have hhash : Plain '#' := ⟨by decide, by decide⟩
  unfold symAt
  -- one step for each test of the definition
  repeat' first
    | exact hzero _
    | exact hone hgt ‹_›
    | exact hone heq ‹_›
    | exact hone hcolon ‹_ ∧ _›.2
    | exact htwo hgt hgt ‹_› ‹_›
    | exact htwo heq hgt ‹_› ‹_›
    | exact htwo hminus hgt ‹_ ∧ _›.1 ‹_ ∧ _›.2
    | exact htwo hhash hgt ‹_ ∧ _›.1 ‹_ ∧ _›.2
    | refine hite (fun _ ↦ ?_) ?_

section Lexing

variable (params : List Value)

lemma alike_substitute (h : separateFrom before inStr text = true) :
    Alike before text (substitute (params.map pgParamLiteral) inStr text) := by
  induction text generalizing before inStr with
  | nil => exact Alike.nil before
  | cons c rest ih =>
    have htail := ih (separateFrom_tail h)
    by_cases hquote : c = quote
    · subst hquote
      rw [if_pos rfl] at htail
      rw [substitute_quote]
      exact Alike.cons quote htail
    rw [if_neg hquote] at htail
    by_cases hplace : inStr = false ∧ c = '$' ∧ starts isNonzeroDigit rest = true
    · obtain ⟨rfl, rfl, hrest⟩ := hplace
      rw [substitute_placeholder _ hrest, literalAt_map]
      exact Alike.operand (separateFrom_placeholder h hrest).1 (opensLiteral_literal _ _)
    · rw [substitute_copy _ hquote hplace]
      exact Alike.cons c htail

end Lexing

variable (lits : List Text)

lemma substitute_string {raw value : Text} (h : readString text = some (raw, value, rest)) :
    substitute lits true text = raw ++ substitute lits false rest ∧
      ∀ before, separateFrom before true text = true →
        separateFrom (raw.reverse ++ before) false rest = true := by
  induction text using readString.induct generalizing raw value rest with
  | case1 => cases h
  | case2 behind ih =>
    rw [readString_doubled, map_eq_some_iff] at h
    obtain ⟨r, hr, hrest⟩ := h
    simp only [Prod.mk.injEq] at hrest
    obtain ⟨rfl, -, rfl⟩ := hrest
    obtain ⟨hcopy, hseparate⟩ := ih hr
    constructor
    · rw [substitute_quote, Bool.not_true, substitute_quote, Bool.not_false, hcopy]
      rfl
    · intro before hbefore
      have h₁ := separateFrom_tail (separateFrom_tail hbefore)
      simpa using hseparate _ h₁
  | case3 c' behind hc' =>
    rw [readString_close (by simpa using hc')] at h
    simp only [some.injEq, Prod.mk.injEq] at h
    obtain ⟨rfl, -, rfl⟩ := h
    exact ⟨substitute_quote lits true _, fun before hbefore ↦ separateFrom_tail hbefore⟩
  | case4 =>
    rw [readString_close rfl] at h
    simp only [some.injEq, Prod.mk.injEq] at h
    obtain ⟨rfl, -, rfl⟩ := h
    exact ⟨substitute_quote lits true _, fun before hbefore ↦ separateFrom_tail hbefore⟩
  | case5 c behind hc ih =>
    rw [readString_of_ne hc, map_eq_some_iff] at h
    obtain ⟨r, hr, hrest⟩ := h
    simp only [Prod.mk.injEq] at hrest
    obtain ⟨rfl, -, rfl⟩ := hrest
    obtain ⟨hcopy, hseparate⟩ := ih hr
    constructor
    · rw [substitute_copy lits hc fun h ↦ Bool.false_ne_true h.1.symm, hcopy]
      rfl
    · intro before hbefore
      have h₁ := separateFrom_tail hbefore
      rw [if_neg hc] at h₁
      simpa using hseparate _ h₁

lemma substitute_unterminated (h : readString text = none) :
    substitute lits true text = text := by
  induction text using readString.induct with
  | case1 => rfl
  | case2 behind ih =>
    rw [readString_doubled, map_eq_none_iff] at h
    rw [substitute_quote, Bool.not_true, substitute_quote, Bool.not_false, ih h]
  | case3 c' behind hc' =>
    rw [readString_close (by simpa using hc')] at h
    cases h
  | case4 =>
    rw [readString_close rfl] at h
    cases h
  | case5 c behind hc ih =>
    rw [readString_of_ne hc, map_eq_none_iff] at h
    rw [substitute_copy lits hc fun h ↦ Bool.false_ne_true h.1.symm, ih h]

def isPlaceholder (lexeme : Lexeme) : Bool :=
  starts (· == '$') lexeme.raw && starts isNonzeroDigit lexeme.raw.tail

lemma isDigit_of_isNonzeroDigit (h : isNonzeroDigit c = true) : isDigit c = true := by
  simp only [isNonzeroDigit, isDigit, Bool.and_eq_true, decide_eq_true_eq] at h ⊢
  exact ⟨le_trans (by decide) h.1, h.2⟩

lemma starts_isDigit_of (h : starts isNonzeroDigit text = true) : starts isDigit text = true := by
  cases text with
  | nil => exact h
  | cons c rest => exact isDigit_of_isNonzeroDigit h

lemma lexAt_plain (hquote : c ≠ quote) (hdollar : c ≠ '$') (text : Text) :
    ∀ x ∈ (lexAt c text).1.raw, Plain x := by
  unfold lexAt
  split_ifs with h₁ h₂ h₄
  · intro x hx
    rcases mem_cons.mp hx with rfl | hx
    · exact ⟨hquote, hdollar⟩
    · exact plain_of_isIdentCont (mem_takeWhile_imp hx)
  · exact lexInt_plain _
  · exact absurd h₄.1 hdollar
  · intro x hx
    rcases mem_cons.mp hx with rfl | hx
    · exact ⟨hquote, hdollar⟩
    · refine symAt_plain c (text.take 2) x ?_
      have hle := symAt_le_length c (text.take 2)
      rw [length_take] at hle
      rwa [take_take, min_eq_left (by omega)]

lemma lexAt_dollar (h : starts isDigit text = false) :
    lexAt '$' text = (⟨['$'], .bad "unexpected byte '$'"⟩, text) := by
  simp [lexAt, h, show isIdentStart '$' = false by decide, show isDigit '$' = false by decide,
    show '$' ≠ quote by decide, lexSym, symAt]

lemma substitute_lexAt (h : isPlaceholder (lexAt c text).1 = false) :
    substitute lits false (c :: text) =
      (lexAt c text).1.raw ++ substitute lits false (lexAt c text).2 := by
  by_cases hquote : c = quote
  · subst hquote
    have hlex : lexAt quote text = lexString text := rfl
    rw [hlex, substitute_quote, Bool.not_false]
    cases hread : readString text with
    | none => simp [lexString, hread, substitute_unterminated lits hread]
    | some r =>
      obtain ⟨raw, value, rest⟩ := r
      simp [lexString, hread, (substitute_string lits hread).1]
  by_cases hdollar : c = '$'
  · subst hdollar
    by_cases hdigit : starts isDigit text = true
    · -- a number with a leading zero
      rw [lexAt_placeholder hdigit] at h ⊢
      have hzero : starts isNonzeroDigit text = false := by
        have hne := takeDigits_ne_nil hdigit
        rw [← takeDigits_append text]
        cases hdigits : (takeDigits text).1 with
        | nil => exact absurd hdigits hne
        | cons d digits => simpa [isPlaceholder, hdigits] using h
      rw [substitute_copy lits hquote fun h ↦ Bool.false_ne_true (hzero.symm.trans h.2.2)]
      nth_rewrite 1 [← takeDigits_append text]
      rw [substitute_append lits (takeDigits_plain text)]
      rfl
    · rw [lexAt_dollar (Bool.eq_false_iff.mpr hdigit),
        substitute_copy lits hquote fun h ↦ hdigit (starts_isDigit_of h.2.2)]
      rfl
  · rw [← lexAt_append c text, substitute_append lits (lexAt_plain hquote hdollar text)]

lemma separateFrom_lexAt (h : separateFrom before false (c :: text) = true) :
    separateFrom ((lexAt c text).1.raw.reverse ++ before) false (lexAt c text).2 = true := by
  by_cases hquote : c = quote
  · subst hquote
    have hlex : lexAt quote text = lexString text := rfl
    have htail := separateFrom_tail h
    rw [hlex]
    cases hread : readString text with
    | none => simp [lexString, hread, separateFrom]
    | some r =>
      obtain ⟨raw, value, rest⟩ := r
      simpa [lexString, hread] using (substitute_string [] hread).2 _ htail
  refine separateFrom_append (fun x hx ↦ ?_) ((lexAt_append c text).symm ▸ h)
  by_cases hdollar : c = '$'
  · subst hdollar
    by_cases hdigit : starts isDigit text = true
    · rw [lexAt_placeholder hdigit] at hx
      rcases mem_cons.mp hx with rfl | hx
      · exact hquote
      · exact (takeDigits_plain text x hx).1
    · rw [lexAt_dollar (Bool.eq_false_iff.mpr hdigit)] at hx
      rw [mem_singleton.mp hx]
      exact hquote
  · exact (lexAt_plain hquote hdollar text x hx).1

end Lockstep.Pg
