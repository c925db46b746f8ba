import Mathlib

/-!
# The tokenizer of the SQL surface

The tokenizer of `query/sql/Parser.hpp`, byte by byte: identifiers, numbers with an optional sign,
fraction and exponent, strings with doubled quotes, `$N` placeholders, and one to three character
symbols.
-/

namespace Lockstep.Sql

open List Option

abbrev Text := List Char

def quote : Char := '\x27'

def isDigit (c : Char) : Bool := '0' ≤ c && c ≤ '9'

def isAlpha (c : Char) : Bool := ('a' ≤ c && c ≤ 'z') || ('A' ≤ c && c ≤ 'Z')

def isIdentStart (c : Char) : Bool := isAlpha c || c == '_'

def isIdentCont (c : Char) : Bool := isIdentStart c || isDigit c

def isSpace (c : Char) : Bool :=
  c == ' ' || c == '\t' || c == '\n' || c == '\r' || c == '\x0c' || c == '\x0b'

def starts (p : Char → Bool) (text : Text) : Bool := text.head?.any p

inductive Sym where
  | lParen | rParen | comma | eq | ne | lt | le | gt | ge | semi | star | dot | plus | minus
  | slash | percent | dblColon | lBracket | rBracket | arrow | arrowText | contains | pathArrow
  | pathArrowText | distL2 | distIp | distCos
  deriving DecidableEq

/-- A token as the parser sees it. -/
inductive Token where
  | ident (text : Text)
  | intLit (text : Text) (intVal : ℤ) (intOverflow : Bool)
  | floatLit (text : Text)
  | strLit (text : Text)
  | sym (s : Sym)
  | param (intVal : ℕ)
  | bad (msg : String)
  deriving DecidableEq

structure Lexeme where
  raw : Text
  token : Token
  deriving DecidableEq

def maxI64 : ℕ := 9223372036854775807

def parseDigits : Text → ℕ → ℕ × Bool
  | [], value => (value, false)
  | c :: rest, value =>
    let digit := c.toNat - '0'.toNat
    if (maxI64 - digit) / 10 < value then (maxI64, true) else parseDigits rest (value * 10 + digit)

def parseI64 (digits : Text) : ℤ × Bool :=
  match digits with
  | '-' :: rest => (-((parseDigits rest 0).1 : ℤ), (parseDigits rest 0).2)
  | rest => ((parseDigits rest 0).1, (parseDigits rest 0).2)

def takeSign : Text → Text × Text
  | '-' :: rest => (['-'], rest)
  | rest => ([], rest)

def takeDigits (text : Text) : Text × Text := (text.takeWhile isDigit, text.dropWhile isDigit)

def takeFraction : Text → Text × Text
  | '.' :: rest =>
    if starts isDigit rest then ('.' :: (takeDigits rest).1, (takeDigits rest).2)
    else ([], '.' :: rest)
  | rest => ([], rest)

def isExpMark (c : Char) : Bool := c == 'e' || c == 'E'

def isSign (c : Char) : Bool := c == '+' || c == '-'

def takeExpSign : Text → Text × Text
  | c :: rest => if isSign c then ([c], rest) else ([], c :: rest)
  | [] => ([], [])

def takeExponent : Text → Text × Text
  | c :: rest =>
    if isExpMark c && starts isDigit (takeExpSign rest).2 then
      (c :: ((takeExpSign rest).1 ++ (takeDigits (takeExpSign rest).2).1),
        (takeDigits (takeExpSign rest).2).2)
    else ([], c :: rest)
  | [] => ([], [])

def lexInt (text : Text) : Lexeme × Text :=
  let (sign, rest) := takeSign text
  let (digits, rest) := takeDigits rest
  let (fraction, rest) := takeFraction rest
  let (exponent, rest) := takeExponent rest
  let raw := sign ++ (digits ++ (fraction ++ exponent))
  if starts isIdentCont rest then (⟨raw, .bad "malformed numeric literal"⟩, rest)
  else if fraction = [] ∧ exponent = [] then
    (⟨raw, .intLit raw (parseI64 raw).1 (parseI64 raw).2⟩, rest)
  else (⟨raw, .floatLit raw⟩, rest)

def readString : Text → Option (Text × Text × Text)
  | [] => none
  | c :: rest =>
    if c = quote then
      match rest with
      | c' :: rest' =>
        if c' = quote then
          (readString rest').map fun r ↦ (quote :: quote :: r.1, quote :: r.2.1, r.2.2)
        else some ([quote], [], c' :: rest')
      | [] => some ([quote], [], [])
    else (readString rest).map fun r ↦ (c :: r.1, c :: r.2.1, r.2.2)

def lexString (rest : Text) : Lexeme × Text :=
  match readString rest with
  | some (raw, value, rest) => (⟨quote :: raw, .strLit value⟩, rest)
  | none => (⟨quote :: rest, .bad "unterminated string literal"⟩, [])

def symAt (c : Char) (ahead : Text) : Token × ℕ :=
  if c = '(' then (.sym .lParen, 0)
  else if c = ')' then (.sym .rParen, 0)
  else if c = '[' then (.sym .lBracket, 0)
  else if c = ']' then (.sym .rBracket, 0)
  else if c = ',' then (.sym .comma, 0)
  else if c = ':' ∧ ahead.head? = some ':' then (.sym .dblColon, 1)
  else if c = '=' then (.sym .eq, 0)
  else if c = '<' then
    if ahead.head? = some '=' then
      if ahead.tail.head? = some '>' then (.sym .distCos, 2) else (.sym .le, 1)
    else if ahead.head? = some '>' then (.sym .ne, 1)
    else if ahead.head? = some '-' ∧ ahead.tail.head? = some '>' then (.sym .distL2, 2)
    else if ahead.head? = some '#' ∧ ahead.tail.head? = some '>' then (.sym .distIp, 2)
    else (.sym .lt, 0)
  else if c = '>' then
    if ahead.head? = some '=' then (.sym .ge, 1) else (.sym .gt, 0)
  else if c = '!' then
    if ahead.head? = some '=' then (.sym .ne, 1)
    else (.bad "expected '=' after '!' (the only '!' use is '!=')", 0)
  else if c = ';' then (.sym .semi, 0)
  else if c = '*' then (.sym .star, 0)
  else if c = '.' then (.sym .dot, 0)
  else if c = '+' then (.sym .plus, 0)
  else if c = '-' then
    if ahead.head? = some '>' then
      if ahead.tail.head? = some '>' then (.sym .arrowText, 2) else (.sym .arrow, 1)
    else (.sym .minus, 0)
  else if c = '/' then (.sym .slash, 0)
  else if c = '%' then (.sym .percent, 0)
  else if c = '@' then
    if ahead.head? = some '>' then (.sym .contains, 1)
    else (.bad "expected '>' after '@' (the only '@' use is '@>')", 0)
  else if c = '#' then
    if ahead.head? = some '>' then
      if ahead.tail.head? = some '>' then (.sym .pathArrowText, 2) else (.sym .pathArrow, 1)
    else (.bad "expected '>' after '#' (the only '#' uses are '#>' and '#>>')", 0)
  else (.bad ("unexpected byte '" ++ String.singleton c ++ "'"), 0)

def lexSym (c : Char) (rest : Text) : Lexeme × Text :=
  let (token, extra) := symAt c (rest.take 2)
  (⟨c :: rest.take extra, token⟩, rest.drop extra)

def decimalNat (digits : Text) : ℕ :=
  digits.foldl (fun n c ↦ n * 10 + (c.toNat - '0'.toNat)) 0

/-- The token at the front. -/
def lexAt (c : Char) (rest : Text) : Lexeme × Text :=
  if isIdentStart c then
    (⟨c :: rest.takeWhile isIdentCont, .ident (c :: rest.takeWhile isIdentCont)⟩,
      rest.dropWhile isIdentCont)
  else if isDigit c || (c == '-' && starts isDigit rest) then lexInt (c :: rest)
  else if c = quote then lexString rest
  else if c = '$' ∧ starts isDigit rest = true then
    (⟨'$' :: (takeDigits rest).1, .param (decimalNat (takeDigits rest).1)⟩,
      (takeDigits rest).2)
  else lexSym c rest

def next (text : Text) : Option (Lexeme × Text) :=
  match text.dropWhile isSpace with
  | [] => none
  | c :: rest => some (lexAt c rest)

def lexemesAux : ℕ → Text → List Lexeme
  | 0, _ => []
  | fuel + 1, text =>
    match next text with
    | none => []
    | some (lexeme, rest) => lexeme :: lexemesAux fuel rest

def lexemes (text : Text) : List Lexeme := lexemesAux text.length text

def tokens (text : Text) : List Token := (lexemes text).map Lexeme.token

/-! ### What is read is what stands there -/

@[simp] lemma starts_cons (p : Char → Bool) (c : Char) (rest : Text) :
    starts p (c :: rest) = p c := rfl

lemma starts_dropWhile (p : Char → Bool) (text : Text) :
    starts p (text.dropWhile p) = false := by
  induction text with
  | nil => rfl
  | cons c rest ih =>
    by_cases hc : p c
    · simpa [hc] using ih
    · simp [hc]

variable {rest : Text}

lemma takeWhile_append_eq {p : Char → Bool} {run : Text} (h : ∀ c ∈ run, p c = true)
    (hrest : starts p rest = false) : (run ++ rest).takeWhile p = run := by
  rw [takeWhile_append_of_pos h]
  cases rest with
  | nil => simp
  | cons c rest => simp [show p c = false from hrest]

lemma dropWhile_append_eq {p : Char → Bool} {run : Text} (h : ∀ c ∈ run, p c = true)
    (hrest : starts p rest = false) : (run ++ rest).dropWhile p = rest := by
  rw [dropWhile_append_of_pos h]
  cases rest with
  | nil => rfl
  | cons c rest => simp [show p c = false from hrest]

lemma takeDigits_of {digits rest : Text} (h : ∀ c ∈ digits, isDigit c = true)
    (hrest : starts isDigit rest = false) : takeDigits (digits ++ rest) = (digits, rest) := by
  rw [takeDigits, takeWhile_append_eq h hrest, dropWhile_append_eq h hrest]

section

variable (text)

lemma takeSign_append : (takeSign text).1 ++ (takeSign text).2 = text := by
  unfold takeSign
  split <;> rfl

lemma takeDigits_append : (takeDigits text).1 ++ (takeDigits text).2 = text :=
  takeWhile_append_dropWhile

lemma takeFraction_append : (takeFraction text).1 ++ (takeFraction text).2 = text := by
  unfold takeFraction
  split
  · split_ifs
    · exact congrArg (_ :: ·) (takeDigits_append _)
    · rfl
  · rfl

lemma takeExpSign_append : (takeExpSign text).1 ++ (takeExpSign text).2 = text := by
  unfold takeExpSign
  split
  · split_ifs <;> rfl
  · rfl

lemma takeExponent_append : (takeExponent text).1 ++ (takeExponent text).2 = text := by
  unfold takeExponent
  split
  · split_ifs
    · rw [cons_append, append_assoc, takeDigits_append, takeExpSign_append]
    · rfl
  · rfl

lemma lexInt_append : (lexInt text).1.raw ++ (lexInt text).2 = text := by
  have happend : (takeSign text).1 ++ ((takeDigits (takeSign text).2).1 ++
      ((takeFraction (takeDigits (takeSign text).2).2).1 ++
        (takeExponent (takeFraction (takeDigits (takeSign text).2).2).2).1)) ++
      (takeExponent (takeFraction (takeDigits (takeSign text).2).2).2).2 = text := by
    simp [takeExponent_append, takeFraction_append, takeDigits_append, takeSign_append]
  simp only [lexInt]
  split_ifs <;> exact happend

end

lemma readString_of_ne {c : Char} (hc : c ≠ quote) (rest : Text) :
    readString (c :: rest) =
      (readString rest).map fun r ↦ (c :: r.1, c :: r.2.1, r.2.2) := by
  rw [readString.eq_def]
  exact if_neg hc

lemma readString_doubled (rest : Text) :
    readString (quote :: quote :: rest) =
      (readString rest).map fun r ↦ (quote :: quote :: r.1, quote :: r.2.1, r.2.2) := by
  simp [readString]

lemma readString_close (hrest : starts (· == quote) rest = false) :
    readString (quote :: rest) = some ([quote], [], rest) := by
  cases rest with
  | nil => simp [readString]
  | cons c rest =>
    have hc : c ≠ quote := by simpa using hrest
    simp [readString, hc]

/-- What is read of a string: its characters up to the closing quote, its value, and a rest that
does not go on with a quote. -/
inductive ReadsString : Text → Text → Text → Prop
  | close {rest : Text} (h : starts (· == quote) rest = false) : ReadsString [quote] [] rest
  | doubled {raw value rest : Text} (h : ReadsString raw value rest) :
      ReadsString (quote :: quote :: raw) (quote :: value) rest
  | other {c : Char} {raw value rest : Text} (hc : c ≠ quote) (h : ReadsString raw value rest) :
      ReadsString (c :: raw) (c :: value) rest

lemma readString_spec {text raw value rest : Text}
    (h : readString text = some (raw, value, rest)) :
    text = raw ++ rest ∧ ReadsString raw value rest := by
  induction text using readString.induct generalizing raw value rest with
  | case1 => cases h
  | case2 rest' ih =>
    rw [readString_doubled, map_eq_some_iff] at h
    obtain ⟨r, hr, hrest⟩ := h
    cases hrest
    exact ⟨by simp [(ih hr).1], .doubled (ih hr).2⟩
  | case3 c' rest' hc' =>
    have hstarts : starts (· == quote) (c' :: rest') = false := by simpa using hc'
    rw [readString_close hstarts] at h
    cases h
    exact ⟨rfl, .close hstarts⟩
  | case4 =>
    rw [readString_close rfl] at h
    cases h
    exact ⟨rfl, .close rfl⟩
  | case5 c rest' hc ih =>
    rw [readString_of_ne hc, map_eq_some_iff] at h
    obtain ⟨r, hr, hrest⟩ := h
    cases hrest
    exact ⟨by simp [(ih hr).1], .other hc (ih hr).2⟩

lemma lexString_append (rest : Text) :
    (lexString rest).1.raw ++ (lexString rest).2 = quote :: rest := by
  unfold lexString
  split
  · rename_i h
    simp [(readString_spec h).1]
  · simp

variable (c : Char)

lemma lexAt_append (rest : Text) : (lexAt c rest).1.raw ++ (lexAt c rest).2 = c :: rest := by
  unfold lexAt
  split_ifs with h₁ h₂ h₃ h₄
  · simp
  · exact lexInt_append _
  · rw [lexString_append, h₃]
  · simp [takeDigits_append, h₄.1]
  · simp [lexSym]

def startsNumber (text : Text) : Bool := starts isDigit (takeSign text).2

variable {text : Text}

lemma takeDigits_ne_nil (h : starts isDigit text = true) : (takeDigits text).1 ≠ [] := by
  cases text with
  | nil => cases h
  | cons c rest => simp [takeDigits, show isDigit c = true from h]

lemma startsNumber_cons (rest : Text) :
    startsNumber (c :: rest) = (isDigit c || (c == '-' && starts isDigit rest)) := by
  unfold startsNumber takeSign
  split
  · rename_i heq
    obtain ⟨rfl, rfl⟩ := cons.inj heq
    simp [isDigit]
  · rename_i hne
    have hc : (c == '-') = false := beq_eq_false_iff_ne.mpr fun hc ↦ hne rest (hc ▸ rfl)
    simp [hc]

lemma lexInt_raw_ne_nil (h : startsNumber text = true) : (lexInt text).1.raw ≠ [] := by
  have hraw : (takeSign text).1 ++ ((takeDigits (takeSign text).2).1 ++
      ((takeFraction (takeDigits (takeSign text).2).2).1 ++
        (takeExponent (takeFraction (takeDigits (takeSign text).2).2).2).1)) ≠ [] := by
    simp [takeDigits_ne_nil h]
  simp only [lexInt]
  split_ifs <;> exact hraw

lemma lexAt_raw_ne_nil (rest : Text) : (lexAt c rest).1.raw ≠ [] := by
  unfold lexAt
  split_ifs with h₁ h₂ h₃ h₄
  · simp
  · exact lexInt_raw_ne_nil ((startsNumber_cons c rest).trans h₂)
  · unfold lexString
    split <;> simp
  · simp
  · simp [lexSym]

lemma next_spaces {spaces : Text} (hspaces : ∀ c ∈ spaces, isSpace c = true) {c : Char}
    (hc : isSpace c = false) (rest : Text) : next (spaces ++ c :: rest) = some (lexAt c rest) := by
  unfold next
  rw [dropWhile_append_eq hspaces (by simpa using hc)]

variable {lexeme : Lexeme}

lemma next_eq_some {text rest : Text} (h : next text = some (lexeme, rest)) :
    ∃ spaces c behind, (∀ x ∈ spaces, isSpace x = true) ∧ isSpace c = false ∧
      text = spaces ++ c :: behind ∧ lexAt c behind = (lexeme, rest) := by
  unfold next at h
  split at h
  · cases h
  rename_i c behind hdrop
  refine ⟨text.takeWhile isSpace, c, behind, fun x hx ↦ mem_takeWhile_imp hx, ?_, ?_,
    some.inj h⟩
  · have := starts_dropWhile isSpace text
    rwa [hdrop] at this
  · rw [← hdrop, takeWhile_append_dropWhile]

lemma next_eq_none (h : next text = none) : ∀ c ∈ text, isSpace c = true := by
  unfold next at h
  split at h
  · rename_i hdrop
    exact dropWhile_eq_nil_iff.mp hdrop
  · cases h

lemma next_length_lt {text rest : Text} (h : next text = some (lexeme, rest)) :
    rest.length < text.length := by
  obtain ⟨spaces, c, behind, -, -, rfl, hlex⟩ := next_eq_some h
  have happend := congrArg length (lexAt_append c behind)
  have hraw := length_pos_iff.mpr (lexAt_raw_ne_nil c behind)
  simp only [hlex, length_append, length_cons] at happend hraw ⊢
  omega

lemma lexemesAux_of_le {fuel : ℕ} (h : text.length ≤ fuel) :
    lexemesAux fuel text = lexemes text := by
  have hall : ∀ (n : ℕ) (fuel : ℕ) (text : Text), text.length ≤ n → n ≤ fuel →
      lexemesAux fuel text = lexemesAux n text := by
    intro n
    induction n with
    | zero =>
      intro fuel text hn _
      rw [length_eq_zero_iff.mp (Nat.le_zero.mp hn)]
      cases fuel <;> rfl
    | succ n ih =>
      intro fuel text hn hfuel
      obtain ⟨fuel, rfl⟩ : ∃ m, fuel = m + 1 := ⟨fuel - 1, by omega⟩
      simp only [lexemesAux]
      split
      · rfl
      · rename_i hnext
        have hlt := next_length_lt hnext
        rw [ih fuel _ (by omega) (by omega)]
  exact hall text.length fuel text le_rfl h

lemma lexemes_of_next {text rest : Text}
    (h : next text = some (lexeme, rest)) : lexemes text = lexeme :: lexemes rest := by
  have hlt := next_length_lt h
  obtain ⟨n, hn⟩ : ∃ n, text.length = n + 1 := ⟨text.length - 1, by omega⟩
  rw [lexemes, hn, lexemesAux, h]
  simp only [lexemesAux_of_le (show rest.length ≤ n by omega)]

lemma lexemes_of_none (h : next text = none) : lexemes text = [] := by
  unfold lexemes
  cases text.length with
  | zero => rfl
  | succ n => rw [lexemesAux, h]

end Lockstep.Sql
