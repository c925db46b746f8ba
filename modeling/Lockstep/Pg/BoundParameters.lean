import Lockstep.Pg.Substitution

/-!
# Bound parameters stay data

What the tokenizer reads where a parameter was put into the text.

So a prepared text keeps its tokens, with one literal in the place of each placeholder, exactly when
no parameter in use is such a number, no placeholder is written with a leading zero, and no
placeholder's number means another parameter in 32 bits (`substitution_keeps_tokens_iff`).
-/

namespace Lockstep.Pg

open Sql
open List hiding next
open Option

lemma tokens_of_next {text rest : Text} {lexeme : Lexeme}
    (h : next text = some (lexeme, rest)) : tokens text = lexeme.token :: tokens rest := by
  rw [tokens, lexemes_of_next h, map_cons, tokens]

variable {after : Text}

lemma not_joinsRight (h : joinsRight after = false) :
    starts isIdentCont after = false ∧ starts (· == quote) after = false ∧
      starts (· == '.') after = false := by
  cases after with
  | nil => exact ⟨rfl, rfl, rfl⟩
  | cons c rest =>
    simp only [joinsRight, starts_cons, Bool.or_eq_false_iff] at h ⊢
    exact ⟨h.1.1.1, h.1.1.2, h.2⟩

lemma next_null (h : joinsRight after = false) :
    next (nullLiteral ++ after) = some (⟨nullLiteral, .ident nullLiteral⟩, after) := by
  have hall : ∀ c ∈ ['U', 'L', 'L'], isIdentCont c = true :=
    all_eq_true.mp (by decide)
  have hcont := (not_joinsRight h).1
  show some (lexAt 'N' (['U', 'L', 'L'] ++ after)) = _
  have hlex : lexAt 'N' (['U', 'L', 'L'] ++ after) =
      (⟨nullLiteral, .ident nullLiteral⟩, after) := by
    rw [lexAt, takeWhile_append_eq hall hcont, dropWhile_append_eq hall hcont]
    rfl
  rw [hlex]

lemma readString_doubleQuotes (v : Text) (h : starts (· == quote) after = false) :
    readString (doubleQuotes v ++ quote :: after) =
      some (doubleQuotes v ++ [quote], v, after) := by
  induction v with
  | nil => exact readString_close h
  | cons c v ih =>
    by_cases hc : c = quote
    · subst hc
      show readString (quote :: quote :: (doubleQuotes v ++ quote :: after)) = _
      rw [readString_doubled, ih]
      rfl
    · have hcons : doubleQuotes (c :: v) = c :: doubleQuotes v := by
        simp [doubleQuotes, hc]
      rw [hcons, cons_append, readString_of_ne hc, ih]
      rfl

lemma next_quoted (v : Text) (h : joinsRight after = false) :
    next (quote :: (doubleQuotes v ++ [quote]) ++ after) =
      some (⟨quote :: (doubleQuotes v ++ [quote]), .strLit v⟩, after) := by
  have hread := readString_doubleQuotes v (not_joinsRight h).2.1
  have hlex : lexAt quote (doubleQuotes v ++ [quote] ++ after) =
      (⟨quote :: (doubleQuotes v ++ [quote]), .strLit v⟩, after) := by
    show lexString _ = _
    rw [append_assoc, singleton_append, lexString, hread]
  show some (lexAt quote (doubleQuotes v ++ [quote] ++ after)) = _
  rw [hlex]

/-! ### Numbers -/

variable {v : Text}

lemma scanNumeric_dot {digit : Bool} (h : scanNumeric v digit true = true) :
    (∀ c ∈ v, isDigit c = true) ∧ (digit = true ∨ v ≠ []) := by
  induction v generalizing digit with
  | nil => exact ⟨nofun, .inl h⟩
  | cons c rest ih =>
    by_cases hc : isDigit c = true
    · simp only [scanNumeric, hc, ↓reduceIte] at h
      exact ⟨forall_mem_cons.mpr ⟨hc, (ih h).1⟩, .inr (cons_ne_nil _ _)⟩
    · simp [scanNumeric, hc] at h

lemma scanNumeric_cases {digit : Bool} (h : scanNumeric v digit false = true) :
    ∃ whole tail, v = whole ++ tail ∧ (∀ c ∈ whole, isDigit c = true) ∧
      ((tail = [] ∧ (digit = true ∨ whole ≠ [])) ∨
        ∃ fraction, tail = '.' :: fraction ∧ (∀ c ∈ fraction, isDigit c = true) ∧
          (digit = true ∨ whole ≠ [] ∨ fraction ≠ [])) := by
  induction v generalizing digit with
  | nil =>
    exact ⟨[], [], rfl, nofun, .inl ⟨rfl, .inl h⟩⟩
  | cons c rest ih =>
    by_cases hc : isDigit c = true
    · simp only [scanNumeric, hc, ↓reduceIte] at h
      obtain ⟨whole, tail, rfl, hwhole, htail⟩ := ih h
      refine ⟨c :: whole, tail, rfl, forall_mem_cons.mpr ⟨hc, hwhole⟩, ?_⟩
      have hne := cons_ne_nil c whole
      rcases htail with ⟨hnil, -⟩ | ⟨fraction, hfraction, hdigits, -⟩
      · exact .inl ⟨hnil, .inr hne⟩
      · exact .inr ⟨fraction, hfraction, hdigits, .inr (.inl hne)⟩
    · by_cases hdot : c = '.'
      · subst hdot
        have hrest : scanNumeric rest digit true = true := by
          simpa [scanNumeric, hc] using h
        obtain ⟨hdigits, hsome⟩ := scanNumeric_dot hrest
        exact ⟨[], '.' :: rest, rfl, nofun,
          .inr ⟨rest, rfl, hdigits, hsome.imp_right .inr⟩⟩
      · simp [scanNumeric, hc, hdot] at h

structure EndsNumber (after : Text) : Prop where
  identCont : starts isIdentCont after = false
  fraction : startsFraction after = false

lemma EndsNumber.exponent (h : EndsNumber after) : startsExponent after = false := by
  cases after with
  | nil => rfl
  | cons c rest =>
    have hc : isExpMark c = false := by
      by_contra hmark
      rw [Bool.not_eq_false] at hmark
      cases h.identCont.symm.trans (isIdentCont_of_isExpMark hmark)
    simp [startsExponent, hc]

lemma EndsNumber.digit (h : EndsNumber after) : starts isDigit after = false := by
  cases after with
  | nil => rfl
  | cons c rest =>
    by_contra hc
    rw [Bool.not_eq_false] at hc
    cases h.identCont.symm.trans (isIdentCont_of_isDigit hc)

lemma endsNumber_of (h : joinsRight after = false) : EndsNumber after := by
  obtain ⟨hcont, -, hdot⟩ := not_joinsRight h
  exact ⟨hcont, by simp [startsFraction, hdot]⟩

lemma endsNumber_dot (h : joinsRight after = false) : EndsNumber ('.' :: after) :=
  ⟨rfl, by simp [startsFraction, (endsNumber_of h).digit]⟩

variable {c : Char}

lemma startsNumber_head {rest : Text} (h : startsNumber (c :: rest) = true) :
    isIdentStart c = false ∧ isSpace c = false := by
  rw [startsNumber_cons, Bool.or_eq_true, Bool.and_eq_true, beq_iff_eq] at h
  rcases h with hdigit | ⟨rfl, -⟩
  · have hle : '0' ≤ c ∧ c ≤ '9' := by simpa [isDigit] using hdigit
    constructor
    · by_contra halpha
      simp only [isIdentStart, isAlpha, Bool.not_eq_false, Bool.or_eq_true, Bool.and_eq_true,
        decide_eq_true_eq, beq_iff_eq] at halpha
      rcases halpha with (halpha | halpha) | rfl
      · exact absurd (halpha.1.trans hle.2) (by decide)
      · exact absurd (halpha.1.trans hle.2) (by decide)
      · exact absurd hle.2 (by decide)
    · by_contra hspace
      simp only [isSpace, Bool.not_eq_false, Bool.or_eq_true, beq_iff_eq] at hspace
      rcases hspace with ((((rfl | rfl) | rfl) | rfl) | rfl) | rfl <;>
        exact absurd hle.1 (by decide)
  · exact ⟨by decide, by decide⟩

lemma next_number {sign whole tail after : Text} (hsign : sign = [] ∨ sign = ['-'])
    (hne : whole ≠ []) (hwhole : ∀ c ∈ whole, isDigit c = true)
    (htail : tail = [] ∨ ∃ fraction, tail = '.' :: fraction ∧ fraction ≠ [] ∧
      ∀ c ∈ fraction, isDigit c = true)
    (hafter : EndsNumber after) :
    next (sign ++ (whole ++ tail) ++ after) =
      some (⟨sign ++ (whole ++ tail), numberToken sign whole tail [] false⟩, after) := by
  have hstarts : starts isDigit (whole ++ (tail ++ after)) = true := by
    cases whole with
    | nil => exact absurd rfl hne
    | cons c whole => exact hwhole c mem_cons_self
  have hsign' : takeSign (sign ++ (whole ++ tail) ++ after) = (sign, whole ++ (tail ++ after)) := by
    rcases hsign with rfl | rfl
    · simpa using takeSign_of_digit hstarts
    · simp [takeSign]
  have hdigits : takeDigits (whole ++ (tail ++ after)) = (whole, tail ++ after) := by
    refine takeDigits_of hwhole ?_
    rcases htail with rfl | ⟨fraction, rfl, -, -⟩
    · exact hafter.digit
    · rfl
  have hfraction : takeFraction (tail ++ after) = (tail, after) := by
    rcases htail with rfl | ⟨fraction, rfl, hne, hall⟩
    · exact takeFraction_none hafter.fraction
    · exact takeFraction_some hne hall hafter.digit
  have hlex := lexInt_of_parts hsign' hdigits hfraction (takeExponent_none hafter.exponent)
  rw [hafter.identCont, append_nil] at hlex
  obtain ⟨c, rest, hcons⟩ : ∃ c rest, sign ++ (whole ++ tail) ++ after = c :: rest := by
    rcases hsign with rfl | rfl
    · cases whole with
      | nil => exact absurd rfl hne
      | cons c whole => exact ⟨c, _, rfl⟩
    · exact ⟨'-', _, rfl⟩
  have hnumber : startsNumber (c :: rest) = true := by
    rwa [← hcons, startsNumber, hsign']
  rw [hcons] at hlex ⊢
  have hident := startsNumber_head hnumber
  have hat : lexAt c rest = lexInt (c :: rest) := by
    rw [startsNumber_cons] at hnumber
    simp [lexAt, hident.1, hnumber]
  rw [show c :: rest = [] ++ c :: rest from rfl,
    next_spaces (fun x hx ↦ absurd hx not_mem_nil) hident.2, hat, hlex]

variable (rest : Text)

lemma tokens_plus : tokens ('+' :: rest) = .sym .plus :: tokens rest :=
  @tokens_of_next _ rest ⟨['+'], .sym .plus⟩ (by simp [next, lexAt, lexSym, symAt, isSpace,
    isIdentStart, isAlpha, isDigit, quote])

lemma tokens_dot : tokens ('.' :: rest) = .sym .dot :: tokens rest :=
  @tokens_of_next _ rest ⟨['.'], .sym .dot⟩ (by simp [next, lexAt, lexSym, symAt, isSpace,
    isIdentStart, isAlpha, isDigit, quote])

lemma tokens_minus_dot :
    tokens ('-' :: '.' :: rest) = .sym .minus :: .sym .dot :: tokens rest := by
  exact @tokens_of_next _ ('.' :: rest) ⟨['-'], .sym .minus⟩ (by simp [next, lexAt, lexSym, symAt,
    isSpace, isIdentStart, isAlpha, isDigit, quote])

/-! ### What a literal denotes -/

def decimal : Text → ℤ
  | '-' :: digits => -(decimalNat digits : ℤ)
  | '+' :: digits => decimalNat digits
  | digits => decimalNat digits

/-- The token is the literal of this value: the word NULL, a string of the same bytes, or the same
number. An integer that does not fit is carried as its digits. -/
def Denotes (token : Token) : Value → Prop
  | none => token = .ident nullLiteral
  | some v =>
    token = .strLit v ∨
      isNumeric v = true ∧ (token = .floatLit v ∨
        ∃ value overflow, token = .intLit v value overflow ∧
          (overflow = false → value = decimal v))

def misread (v : Text) : Bool :=
  isNumeric v &&
    (starts (· == '+') v || starts (· == '.') (unsigned v) || v.getLast? == some '.')

lemma parseDigits_exact {digits : Text} {value : ℕ} (h : (parseDigits digits value).2 = false) :
    (parseDigits digits value).1 =
      digits.foldl (fun n c ↦ n * 10 + (c.toNat - '0'.toNat)) value := by
  induction digits generalizing value with
  | nil => rfl
  | cons c rest ih =>
    simp only [parseDigits] at h ⊢
    split_ifs at h ⊢ with hover
    exact ih h

lemma parseI64_exact {sign whole : Text} (hsign : sign = [] ∨ sign = ['-'])
    (hne : whole ≠ []) (hwhole : ∀ c ∈ whole, isDigit c = true)
    (h : (parseI64 (sign ++ whole)).2 = false) :
    (parseI64 (sign ++ whole)).1 = decimal (sign ++ whole) := by
  rcases hsign with rfl | rfl
  · cases whole with
    | nil => exact absurd rfl hne
    | cons c whole =>
      have hdigit := hwhole c mem_cons_self
      rw [parseI64.eq_2 _ (by rintro _ ⟨⟩; cases hdigit)] at h ⊢
      rw [decimal.eq_3 _ (by rintro _ ⟨⟩; cases hdigit) (by rintro _ ⟨⟩; cases hdigit),
        parseDigits_exact h]
      rfl
  · have hexact := parseDigits_exact (show (parseDigits whole 0).2 = false from h)
    show -((parseDigits whole 0).1 : ℤ) = -(decimalNat whole : ℤ)
    rw [hexact]
    rfl

variable {sign whole tail : Text}

lemma denotes_number (hsign : sign = [] ∨ sign = ['-'])
    (hne : whole ≠ []) (hwhole : ∀ c ∈ whole, isDigit c = true)
    (hnumeric : isNumeric (sign ++ (whole ++ tail)) = true) :
    Denotes (numberToken sign whole tail [] false) (some (sign ++ (whole ++ tail))) := by
  refine .inr ⟨hnumeric, ?_⟩
  by_cases htail : tail = []
  · subst htail
    refine .inr ⟨(parseI64 (sign ++ whole)).1, (parseI64 (sign ++ whole)).2, ?_, ?_⟩
    · simp [numberToken]
    · rw [append_nil]
      exact parseI64_exact hsign hne hwhole
  · exact .inl (by simp [numberToken, htail])

/-- The parts of a number: a sign, digits, and a dot with digits, with a digit somewhere. -/
structure Numeral (sign whole tail : Text) : Prop where
  sign_eq : sign = [] ∨ sign = ['+'] ∨ sign = ['-']
  whole_digits : ∀ c ∈ whole, isDigit c = true
  tail_eq : (tail = [] ∧ whole ≠ []) ∨ ∃ fraction, tail = '.' :: fraction ∧
    (∀ c ∈ fraction, isDigit c = true) ∧ (whole ≠ [] ∨ fraction ≠ [])

lemma exists_numeral (h : isNumeric v = true) :
    ∃ sign whole tail, v = sign ++ (whole ++ tail) ∧ unsigned v = whole ++ tail ∧
      Numeral sign whole tail := by
  obtain ⟨whole, tail, hunsigned, hwhole, htail⟩ := scanNumeric_cases h
  refine ⟨v.take (if starts isSign v then 1 else 0), whole, tail, ?_, hunsigned, ?_, hwhole, ?_⟩
  · rw [← hunsigned, unsigned, take_append_drop]
  · cases v with
    | nil => exact .inl rfl
    | cons c rest =>
      by_cases hc : isSign c = true
      · have hsign : c = '+' ∨ c = '-' := by simpa [isSign] using hc
        simpa [hc] using hsign
      · exact .inl (by simp [hc])
  · simpa using htail

lemma Numeral.getLast_eq_dot (h : Numeral sign whole tail) :
    (sign ++ (whole ++ tail)).getLast? = some '.' ↔ tail = ['.'] := by
  have hdigits : ∀ {digits : Text}, digits ≠ [] → (∀ c ∈ digits, isDigit c = true) →
      ∀ before : Text, (before ++ digits).getLast? ≠ some '.' := by
    intro digits hne hall before hlast
    rw [getLast?_append_of_ne_nil _ hne] at hlast
    have := hall '.' (mem_of_getLast? hlast)
    exact absurd this (by decide)
  rcases h.tail_eq with ⟨rfl, hne⟩ | ⟨fraction, rfl, hfraction, -⟩
  · simpa using hdigits hne h.whole_digits sign
  · by_cases hne : fraction = []
    · simp [hne]
    · have := hdigits hne hfraction (sign ++ (whole ++ ['.']))
      simpa [hne] using this

lemma Numeral.misread_eq_false (h : Numeral sign whole tail)
    (hnumeric : isNumeric (sign ++ (whole ++ tail)) = true)
    (hunsigned : unsigned (sign ++ (whole ++ tail)) = whole ++ tail) :
    misread (sign ++ (whole ++ tail)) = false ↔ sign ≠ ['+'] ∧ whole ≠ [] ∧ tail ≠ ['.'] := by
  have hplus : starts (· == '+') (sign ++ (whole ++ tail)) = true ↔ sign = ['+'] := by
    rcases h.sign_eq with rfl | rfl | rfl
    · have hstarts := scanNumeric_starts hnumeric
      rw [hunsigned] at hstarts
      constructor
      · intro hhead
        cases hcons : whole ++ tail with
        | nil => rw [hcons] at hhead; cases hhead
        | cons c rest =>
          rw [nil_append, hcons, starts_cons, beq_iff_eq] at hhead
          rw [hcons, hhead] at hstarts
          exact absurd hstarts (by simp [isDigit])
      · exact fun h ↦ absurd h.symm (cons_ne_nil _ _)
    · simp
    · simp
  have hdot : starts (· == '.') (whole ++ tail) = true ↔ whole = [] := by
    cases hwhole : whole with
    | nil =>
      rcases h.tail_eq with ⟨-, hne⟩ | ⟨fraction, rfl, -, -⟩
      · exact absurd hwhole hne
      · simp
    | cons c rest =>
      have hc : isDigit c = true := h.whole_digits c (hwhole ▸ mem_cons_self)
      simp only [cons_append, starts_cons, beq_iff_eq, cons_ne_nil, iff_false]
      rintro rfl
      exact absurd hc (by decide)
  rw [misread, hnumeric, hunsigned, Bool.true_and, Bool.or_eq_false_iff, Bool.or_eq_false_iff,
    ← Bool.not_eq_true, hplus, ← Bool.not_eq_true, hdot, beq_eq_false_iff_ne, ne_eq,
    h.getLast_eq_dot, and_assoc]

/-- The tokens of a number without a plus sign. -/
def unsignedTokens (minus whole tail : Text) : List Token :=
  if whole = [] then
    (if minus = [] then [] else [.sym .minus]) ++ [.sym .dot, numberToken [] tail.tail [] [] false]
  else if tail = ['.'] then [numberToken minus whole [] [] false, .sym .dot]
  else [numberToken minus whole tail [] false]

lemma unsignedTokens_eq_singleton {minus : Text} {token : Token} :
    unsignedTokens minus whole tail = [token] ↔
      whole ≠ [] ∧ tail ≠ ['.'] ∧ token = numberToken minus whole tail [] false := by
  unfold unsignedTokens
  split_ifs with hwhole hminus htail
  · simp [hwhole]
  · simp [hwhole]
  · simp [htail]
  · simp [hwhole, htail, eq_comm]

lemma Numeral.tokens_unsigned (h : Numeral sign whole tail) {minus : Text}
    (hminus : minus = [] ∨ minus = ['-']) (hafter : joinsRight after = false) :
    tokens (minus ++ (whole ++ tail) ++ after) =
      unsignedTokens minus whole tail ++ tokens after := by
  by_cases hwhole : whole = []
  · -- the dot comes first
    obtain ⟨fraction, rfl, hfraction, hne⟩ : ∃ fraction, tail = '.' :: fraction ∧
        (∀ c ∈ fraction, isDigit c = true) ∧ fraction ≠ [] := by
      rcases h.tail_eq with ⟨-, hne⟩ | ⟨fraction, rfl, hfraction, hne⟩
      · exact absurd hwhole hne
      · exact ⟨fraction, rfl, hfraction, hne.resolve_left fun hne ↦ hne hwhole⟩
    have hbehind := tokens_of_next
      (next_number (.inl rfl) hne hfraction (.inl rfl) (endsNumber_of hafter))
    rcases hminus with rfl | rfl <;>
      simp_all [unsignedTokens, tokens_dot, tokens_minus_dot]
  rw [unsignedTokens]
  split_ifs with htail
  · have hnext := next_number hminus hwhole h.whole_digits (.inl rfl) (endsNumber_dot hafter)
    rw [append_nil] at hnext
    rw [htail, append_assoc, append_assoc, singleton_append, ← append_assoc,
      tokens_of_next hnext, tokens_dot]
    rfl
  · refine tokens_of_next (next_number hminus hwhole h.whole_digits ?_ (endsNumber_of hafter))
    rcases h.tail_eq with ⟨hnil, -⟩ | ⟨fraction, rfl, hfraction, -⟩
    · exact .inl hnil
    · refine .inr ⟨fraction, rfl, ?_, hfraction⟩
      rintro rfl
      exact htail rfl

lemma tokens_numeric (h : isNumeric v = true) :
    ∃ ts, (∀ after, joinsRight after = false → tokens (v ++ after) = ts ++ tokens after) ∧
      ts ≠ [] ∧ (misread v = false → ∃ token, ts = [token]) ∧
      ∀ token, ts = [token] → misread v = false ∧ Denotes token (some v) := by
  obtain ⟨sign, whole, tail, rfl, hunsigned, hnumeral⟩ := exists_numeral h
  have hmisread := hnumeral.misread_eq_false h hunsigned
  have hsome : ∀ minus, unsignedTokens minus whole tail ≠ [] := by
    intro minus
    unfold unsignedTokens
    split_ifs <;> simp
  by_cases hplus : sign = ['+']
  · subst hplus
    refine ⟨.sym .plus :: unsignedTokens [] whole tail, fun after hafter ↦ ?_, cons_ne_nil _ _,
      fun hfalse ↦ absurd rfl (hmisread.mp hfalse).1, fun token htoken ↦ ?_⟩
    · exact (tokens_plus _).trans
        (congrArg (_ :: ·) (hnumeral.tokens_unsigned (.inl rfl) hafter))
    · exact absurd (cons.inj htoken).2 (hsome [])
  have hminus : sign = [] ∨ sign = ['-'] := by
    rcases hnumeral.sign_eq with h | h | h
    exacts [.inl h, absurd h hplus, .inr h]
  refine ⟨_, fun after ↦ hnumeral.tokens_unsigned hminus, hsome sign, fun hfalse ↦ ?_,
    fun token htoken ↦ ?_⟩
  · obtain ⟨-, hwhole, htail⟩ := hmisread.mp hfalse
    exact ⟨_, unsignedTokens_eq_singleton.mpr ⟨hwhole, htail, rfl⟩⟩
  · obtain ⟨hwhole, htail, rfl⟩ := unsignedTokens_eq_singleton.mp htoken
    exact ⟨hmisread.mpr ⟨hplus, hwhole, htail⟩,
      denotes_number hminus hwhole hnumeral.whole_digits h⟩

lemma tokens_literal (value : Value) :
    (∀ after, joinsRight after = false → tokens (pgParamLiteral value ++ after) =
      tokens (pgParamLiteral value) ++ tokens after) ∧
    tokens (pgParamLiteral value) ≠ [] ∧
    ((∀ v, value = some v → misread v = false) → ∃ token, tokens (pgParamLiteral value) = [token]) ∧
    ∀ token, tokens (pgParamLiteral value) = [token] →
      (∀ v, value = some v → misread v = false) ∧ Denotes token value := by
  -- from the tokens in front of every text come those in front of the empty one
  have hall : ∀ ts : List Token,
      (∀ after, joinsRight after = false →
        tokens (pgParamLiteral value ++ after) = ts ++ tokens after) →
      tokens (pgParamLiteral value) = ts := by
    intro ts hts
    simpa [show tokens [] = [] from rfl] using hts [] rfl
  cases value with
  | none =>
    have hts : ∀ after, joinsRight after = false →
        tokens (pgParamLiteral none ++ after) = [.ident nullLiteral] ++ tokens after :=
      fun after hafter ↦ tokens_of_next (next_null hafter)
    exact ⟨hts, cons_ne_nil _ _, fun _ ↦ ⟨_, rfl⟩, fun token htoken ↦
      ⟨nofun, (cons.inj htoken).1.symm⟩⟩
  | some v =>
    simp only [some.injEq, forall_eq']
    by_cases hnumeric : isNumeric v = true
    · have hv : v ≠ [] := by rintro rfl; cases hnumeric
      have hliteral : pgParamLiteral (some v) = v := by simp [pgParamLiteral, hv, hnumeric]
      obtain ⟨ts, hts, hrest⟩ := tokens_numeric hnumeric
      rw [hall ts (by rwa [hliteral]), hliteral]
      exact ⟨hts, hrest⟩
    · have hliteral : pgParamLiteral (some v) = quote :: (doubleQuotes v ++ [quote]) := by
        by_cases hv : v = []
        · simp [pgParamLiteral, hv, doubleQuotes]
        · simp [pgParamLiteral, hv, hnumeric]
      have hts : ∀ after, joinsRight after = false →
          tokens (pgParamLiteral (some v) ++ after) = [.strLit v] ++ tokens after := by
        intro after hafter
        rw [hliteral]
        exact tokens_of_next (next_quoted v hafter)
      rw [hall _ hts]
      refine ⟨hts, cons_ne_nil _ _, fun _ ↦ ⟨_, rfl⟩, fun token htoken ↦ ⟨?_, ?_⟩⟩
      · rw [misread, Bool.eq_false_iff.mpr hnumeric, Bool.false_and]
      · exact .inl (cons.inj htoken).1.symm

/-! ### The tokens of the substituted text -/

variable {text : Text}

section Text

variable (params : List Value)

def expansion (lexeme : Lexeme) : List Token :=
  if isPlaceholder lexeme then
    tokens (pgParamLiteral (parameter params (parameterIndex lexeme.raw.tail)))
  else [lexeme.token]

lemma tokens_spaces {spaces : Text} (h : ∀ c ∈ spaces, isSpace c = true) (text : Text) :
    tokens (spaces ++ text) = tokens text := by
  have hnext : next (spaces ++ text) = next text := by rw [next, dropWhile_append_of_pos h, next]
  cases htext : next text with
  | none => rw [tokens, tokens, lexemes_of_none (hnext.trans htext), lexemes_of_none htext]
  | some r =>
    rw [tokens_of_next (hnext.trans htext), tokens_of_next htext]

lemma plain_of_isSpace (h : isSpace c = true) : Plain c :=
  plain_of (by decide) (by decide) h

lemma joinsRight_alike {before text text' : Text} (h : Alike before text text')
    (hjoins : joinsRight text = false) : joinsRight text' = false := by
  cases h with
  | nil => exact hjoins
  | cons c h => exact hjoins
  | operand hbefore hopens => exact absurd hjoins (by simp [joinsRight])

lemma isPlaceholder_lexAt (h : isPlaceholder (lexAt c text).1 = true) :
    c = '$' ∧ starts isNonzeroDigit text = true := by
  have happend := lexAt_append c text
  rw [isPlaceholder, Bool.and_eq_true] at h
  cases hraw : (lexAt c text).1.raw with
  | nil => exact absurd hraw (lexAt_raw_ne_nil c text)
  | cons x used =>
    rw [hraw] at h happend
    rw [cons_append, cons.injEq] at happend
    refine ⟨happend.1 ▸ beq_iff_eq.mp h.1, ?_⟩
    rw [← happend.2]
    cases used with
    | nil => cases h.2
    | cons d used => exact h.2

lemma tokens_substitute_from {before text : Text} (h : separateFrom before false text = true) :
    tokens (substitute (params.map pgParamLiteral) false text) =
      (lexemes text).flatMap (expansion params) := by
  induction hn : text.length using Nat.strong_induction_on generalizing before text with
  | _ n ih =>
  cases hnext : next text with
  | none =>
    have hspaces := next_eq_none hnext
    have hcopy := substitute_append (params.map pgParamLiteral)
      (fun c hc ↦ plain_of_isSpace (hspaces c hc)) false []
    rw [append_nil] at hcopy
    rw [hcopy, substitute_nil, append_nil, tokens, lexemes_of_none hnext]
    rfl
  | some r =>
    obtain ⟨lexeme, rest⟩ := r
    have hlt := next_length_lt hnext
    obtain ⟨spaces, c, behind, hspaces, hc, rfl, hlex⟩ := next_eq_some hnext
    have hcopy := substitute_append (params.map pgParamLiteral)
      (fun c hc ↦ plain_of_isSpace (hspaces c hc)) false (c :: behind)
    have hseparate := separateFrom_append
      (fun c hc ↦ (plain_of_isSpace (hspaces c hc)).1) h
    have hrest := separateFrom_lexAt hseparate
    have halike := alike_substitute params hrest
    simp only [hlex] at hrest halike
    have hih := ih rest.length (hn ▸ hlt) hrest rfl
    rw [lexemes_of_next hnext, flatMap_cons, ← hih, hcopy]
    by_cases hplace : isPlaceholder lexeme = true
    · -- the placeholder becomes its literal, in front of what stood behind it
      obtain ⟨rfl, hdigit⟩ := isPlaceholder_lexAt (by rwa [hlex])
      rw [lexAt_placeholder (starts_isDigit_of hdigit)] at hlex
      obtain ⟨rfl, rfl⟩ := hlex
      have hafter := joinsRight_alike halike (separateFrom_placeholder hseparate hdigit).2
      rw [substitute_placeholder _ hdigit, tokens_spaces hspaces, literalAt_map,
        (tokens_literal _).1 _ hafter, expansion, if_pos hplace]
      rfl
    · obtain ⟨text₁, htext₁, hlex₁⟩ := @lexAt_congr c behind _ _ (by rwa [hlex])
      rw [substitute_lexAt _ (by rw [hlex]; exact Bool.eq_false_iff.mpr hplace)]
      simp only [hlex] at htext₁ hlex₁ ⊢
      rw [htext₁, tokens_of_next ((next_spaces hspaces hc text₁).trans (congrArg some hlex₁)),
        expansion, if_neg hplace]
      rfl

end Text

/-! ### Bound parameters stay data -/

lemma expansion_ne_nil (params : List Value) (lexeme : Lexeme) :
    expansion params lexeme ≠ [] := by
  unfold expansion
  split_ifs with h
  · exact (tokens_literal _).2.1
  · exact cons_ne_nil _ _

lemma forall₂_flatMap_iff {α β γ : Type} (r : β → γ → Prop) (f : α → β) (e : α → List γ)
    (he : ∀ a, e a ≠ []) (as : List α) :
    List.Forall₂ r (as.map f) (as.flatMap e) ↔ ∀ a ∈ as, ∃ c, e a = [c] ∧ r (f a) c := by
  have hlength : ∀ as : List α, as.length ≤ (as.flatMap e).length := by
    intro as
    induction as with
    | nil => exact le_rfl
    | cons a as ih =>
      have := length_pos_iff.mpr (he a)
      rw [flatMap_cons, length_append, length_cons]
      omega
  induction as with
  | nil => simp
  | cons a as ih =>
    rw [forall_mem_cons, map_cons, flatMap_cons]
    refine Iff.trans ?_ (and_congr_right fun _ ↦ ih)
    constructor
    · intro h
      cases hea : e a with
      | nil => exact absurd hea (he a)
      | cons c cs =>
        rw [hea, cons_append, forall₂_cons] at h
        have hlen := h.2.length_eq
        have hle := hlength as
        rw [length_map, length_append] at hlen
        obtain rfl : cs = [] := length_eq_zero_iff.mp (by omega)
        exact ⟨⟨c, rfl, h.1⟩, h.2⟩
    · rintro ⟨⟨c, hc, hr⟩, h⟩
      rw [hc]
      exact List.Forall₂.cons hr h

/-- A token of the substituted text in the place of one of the prepared text: a literal of the
parameter for a placeholder, and the same token for every other. -/
def Stands (params : List Value) : Token → Token → Prop
  | .param n, token => Denotes token (parameter params n)
  | original, token => token = original

lemma parameterIndex_eq (digits : Text) : parameterIndex digits = decimalNat digits % 2 ^ 32 := by
  have hall : ∀ (digits : Text) (n : ℕ),
      digits.foldl (fun n c ↦ (n * 10 + (c.toNat - '0'.toNat)) % 2 ^ 32) (n % 2 ^ 32) =
        digits.foldl (fun n c ↦ n * 10 + (c.toNat - '0'.toNat)) n % 2 ^ 32 := by
    intro digits
    induction digits with
    | nil => exact fun n ↦ rfl
    | cons c digits ih =>
      intro n
      rw [foldl_cons, foldl_cons, ← ih]
      congr 1
      omega
  exact hall digits 0

lemma token_of_isPlaceholder {lexeme : Lexeme} (hmem : lexeme ∈ lexemes text)
    (h : isPlaceholder lexeme = true) : lexeme.token = .param (decimalNat lexeme.raw.tail) := by
  induction hn : text.length using Nat.strong_induction_on generalizing text with
  | _ n ih =>
  cases hnext : next text with
  | none =>
    rw [lexemes_of_none hnext] at hmem
    cases hmem
  | some r =>
    obtain ⟨first, rest⟩ := r
    rw [lexemes_of_next hnext] at hmem
    rcases mem_cons.mp hmem with rfl | hmem
    · obtain ⟨spaces, c, behind, -, -, rfl, hlex⟩ := next_eq_some hnext
      obtain ⟨rfl, hdigit⟩ := isPlaceholder_lexAt (by rwa [hlex])
      rw [lexAt_placeholder (starts_isDigit_of hdigit), Prod.mk.injEq] at hlex
      rw [← hlex.1]
      rfl
    · exact ih rest.length (hn ▸ next_length_lt hnext) hmem rfl

/-- The prepared text keeps its tokens when the parameters are put into it, one literal that denotes
the parameter in the place of each placeholder. -/
def KeepsTokens (params : List Value) (text : Text) : Prop :=
  List.Forall₂ (Stands params) (tokens text)
    (tokens (pgSubstituteParams text (params.map pgParamLiteral)))

/-- The placeholder is written without a leading zero, its number means the same parameter in 32
bits, and that parameter is not a number the tokenizer misreads. -/
def Safe (params : List Value) (lexeme : Lexeme) : Prop :=
  ∀ n, lexeme.token = .param n → isPlaceholder lexeme = true ∧
    parameter params (n % 2 ^ 32) = parameter params n ∧
    ∀ v, parameter params n = some v → misread v = false

lemma denotes_none_unique {token : Token} {value : Value} (hnone : Denotes token none)
    (h : Denotes token value) : value = none := by
  cases value with
  | none => rfl
  | some v =>
    have htoken : token = .ident nullLiteral := hnone
    subst htoken
    rcases h with h | ⟨-, h | ⟨value, overflow, h, -⟩⟩ <;> cases h

lemma stands_iff_safe {params : List Value} (hcount : params.length < 2 ^ 32)
    {lexeme : Lexeme} (hmem : lexeme ∈ lexemes text) :
    (∃ token, expansion params lexeme = [token] ∧ Stands params lexeme.token token) ↔
      Safe params lexeme := by
  by_cases hplace : isPlaceholder lexeme = true
  · have htoken := token_of_isPlaceholder hmem hplace
    obtain ⟨n, hn⟩ : ∃ n, n = decimalNat lexeme.raw.tail := ⟨_, rfl⟩
    have hexpansion : expansion params lexeme =
        tokens (pgParamLiteral (parameter params (n % 2 ^ 32))) := by
      rw [expansion, if_pos hplace, parameterIndex_eq, hn]
    rw [← hn] at htoken
    rw [hexpansion, htoken]
    obtain ⟨-, -, hsome, hone⟩ := tokens_literal (parameter params (n % 2 ^ 32))
    have hsafe : Safe params lexeme ↔ parameter params (n % 2 ^ 32) = parameter params n ∧
        ∀ v, parameter params n = some v → misread v = false := by
      constructor
      · exact fun h ↦ (h n htoken).2
      · intro h m hm
        obtain rfl : n = m := Token.param.inj (htoken.symm.trans hm)
        exact ⟨hplace, h⟩
    rw [hsafe]
    constructor
    · rintro ⟨token, hsingle, hdenotes⟩
      obtain ⟨hgood, hdenotes'⟩ := hone token hsingle
      have hsame : parameter params (n % 2 ^ 32) = parameter params n := by
        by_cases hlt : n < 2 ^ 32
        · rw [Nat.mod_eq_of_lt hlt]
        -- no parameter has so large a number, and the literal denotes NULL
        have hnone : parameter params n = none := by
          rw [parameter, if_pos (by omega), getElem?_eq_none (by omega)]
          rfl
        have hnull : Denotes token none := hnone ▸ hdenotes
        rw [hnone, denotes_none_unique hnull hdenotes']
      exact ⟨hsame, hsame ▸ hgood⟩
    · rintro ⟨hsame, hgood⟩
      rw [hsame] at hsome hone ⊢
      obtain ⟨token, htoken⟩ := hsome hgood
      exact ⟨token, htoken, (hone token htoken).2⟩
  · rw [expansion, if_neg hplace]
    cases htoken : lexeme.token with
    | param n =>
      constructor
      · rintro ⟨token, hsingle, hdenotes⟩
        have htoken' : token = .param n := (cons.inj hsingle).1.symm
        subst htoken'
        change Denotes (.param n) (parameter params n) at hdenotes
        cases hparam : parameter params n with
        | none =>
          rw [hparam] at hdenotes
          exact Token.noConfusion hdenotes
        | some v =>
          rw [hparam] at hdenotes
          rcases hdenotes with h | ⟨-, h | ⟨value, overflow, h, -⟩⟩ <;> cases h
      · exact fun h ↦ absurd (h n htoken).1 hplace
    | _ =>
      refine ⟨fun _ m hm ↦ Token.noConfusion (htoken.symm.trans hm), fun _ ↦ ⟨_, rfl, rfl⟩⟩

/-- Bound parameters stay data exactly when every placeholder is safe. -/
theorem substitution_keeps_tokens_iff (params : List Value) (hcount : params.length < 2 ^ 32)
    (text : Text) (hseparate : separate text = true) :
    KeepsTokens params text ↔ ∀ lexeme ∈ lexemes text, Safe params lexeme := by
  unfold KeepsTokens
  rw [pgSubstituteParams, tokens_substitute_from params hseparate, tokens,
    forall₂_flatMap_iff _ _ _ (expansion_ne_nil params)]
  exact forall₂_congr fun lexeme hmem ↦ stands_iff_safe hcount hmem

/-- `a=$1` with the value `it's` keeps its tokens. -/
theorem substitution_keeps_tokens_quoted :
    KeepsTokens [some ['i', 't', quote, 's']] ['a', '=', '$', '1'] := by
  refine (substitution_keeps_tokens_iff _ (by decide) _ (by decide)).mpr fun lexeme hmem n hn ↦ ?_
  have hlexemes : lexemes ['a', '=', '$', '1'] =
      [⟨['a'], .ident ['a']⟩, ⟨['='], .sym .eq⟩, ⟨['$', '1'], .param 1⟩] := by decide
  rw [hlexemes] at hmem
  simp only [mem_cons, not_mem_nil, or_false] at hmem
  rcases hmem with rfl | rfl | rfl
  · cases hn
  · cases hn
  · obtain rfl : 1 = n := Token.param.inj hn
    refine ⟨by decide, by decide, fun v hv ↦ ?_⟩
    rw [← some.inj (show some ['i', 't', quote, 's'] = some v from hv)]
    decide

/-- Behind a minus a placeholder is not separate: `a-$1` with the value `5` becomes `a-5`, where the
minus is the sign of the number and no token of its own. -/
example : separate ['a', '-', '$', '1'] = false ∧
    tokens ['a', '-', '$', '1'] = [.ident ['a'], .sym .minus, .param 1] ∧
    tokens (pgSubstituteParams ['a', '-', '$', '1'] [['5']]) =
      [.ident ['a'], .intLit ['-', '5'] (-5) false] := by
  decide

/-- `a=$1` with the value `+5` becomes `a=+5`, four tokens where there were three. -/
theorem plus_sign_splits :
    separate ['a', '=', '$', '1'] = true ∧
      ¬KeepsTokens [some ['+', '5']] ['a', '=', '$', '1'] := by
  refine ⟨by decide, fun h ↦ ?_⟩
  have hlength := h.length_eq
  revert hlength
  decide

end Lockstep.Pg
