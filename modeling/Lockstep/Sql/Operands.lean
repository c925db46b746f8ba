import Lockstep.Sql.Lexer

/-!
# Texts that the tokenizer reads alike

The tokenizer looks at most three characters past a token. Two texts that agree up to a place where
one has a placeholder and the other a literal are read alike up to that place, as long as the
characters in front of it cannot take a literal into their token.
-/

namespace Lockstep.Sql

open List Option

variable {c : Char} {before digits raw rest text text' value : Text}

/-- The characters in front, the last one first, may take what follows into their token. A minus
takes a number into its token, as the sign. -/
def joinsLeft : Text → Bool
  | [] => false
  | c :: before =>
    isIdentCont c || c == quote || c == '$' || c == '.' || c == '-' ||
      (c == '+' && starts isExpMark before)

inductive OpensLiteral : Text → Prop
  | intro {c : Char} {rest : Text}
      (hc : isDigit c = true ∨ c = quote ∨ c = 'N' ∨ c = '.' ∨ c = '+' ∨ c = '-')
      (hrest : c = '-' → starts (· == '>') rest = false) : OpensLiteral (c :: rest)

/-- Two texts behind the same characters agree up to a placeholder that stands apart from what is
in front of it, where the second has a literal. -/
inductive Alike : Text → Text → Text → Prop
  | nil (before : Text) : Alike before [] []
  | cons {before : Text} (c : Char) {text text' : Text} (h : Alike (c :: before) text text') :
      Alike before (c :: text) (c :: text')
  | operand {before text text' : Text} (hbefore : joinsLeft before = false)
      (hopens : OpensLiteral text') : Alike before ('$' :: text) text'

lemma Alike.append (run : Text) (h : Alike (run.reverse ++ before) text text') :
    Alike before (run ++ text) (run ++ text') := by
  induction run generalizing before with
  | nil => exact h
  | cons c run ih =>
    refine Alike.cons c (ih ?_)
    simpa using h

lemma Alike.starts_eq (h : Alike before text text') (hjoins : joinsLeft before = true)
    (p : Char → Bool) : starts p text' = starts p text := by
  cases h with
  | nil | cons c h => rfl
  | operand hbefore hopens => cases hjoins.symm.trans hbefore

def startsFraction (text : Text) : Bool := starts (· == '.') text && starts isDigit text.tail

def startsExponent (text : Text) : Bool :=
  starts isExpMark text && starts isDigit (takeExpSign text.tail).2

lemma joinsLeft_identCont (h : isIdentCont c = true) (before : Text) :
    joinsLeft (c :: before) = true := by
  simp [joinsLeft, h]

lemma isIdentCont_of_isDigit (h : isDigit c = true) : isIdentCont c = true := by
  simp [isIdentCont, h]

lemma isIdentCont_of_isExpMark (h : isExpMark c = true) : isIdentCont c = true := by
  rw [isExpMark, Bool.or_eq_true, beq_iff_eq, beq_iff_eq] at h
  rcases h with rfl | rfl <;> decide

lemma joinsLeft_expSign {sign mark : Char} (hsign : isSign sign = true)
    (hmark : isExpMark mark = true) (before : Text) :
    joinsLeft (sign :: mark :: before) = true := by
  rw [isSign, Bool.or_eq_true, beq_iff_eq, beq_iff_eq] at hsign
  rcases hsign with rfl | rfl <;> simp [joinsLeft, hmark]

/-! ### Numbers -/

lemma takeDigits_isDigit (text : Text) : ∀ c ∈ (takeDigits text).1, isDigit c = true :=
  fun _ hc ↦ mem_takeWhile_imp hc

lemma takeFraction_none (h : startsFraction text = false) : takeFraction text = ([], text) := by
  unfold takeFraction
  split
  · rw [if_neg]
    simpa [startsFraction] using h
  · rfl

lemma takeFraction_some (hne : digits ≠ []) (h : ∀ c ∈ digits, isDigit c = true)
    (hrest : starts isDigit rest = false) :
    takeFraction ('.' :: digits ++ rest) = ('.' :: digits, rest) := by
  have hstarts : starts isDigit (digits ++ rest) = true := by
    cases digits with
    | nil => exact absurd rfl hne
    | cons c digits => exact h c mem_cons_self
  simp [takeFraction, hstarts, takeDigits_of h hrest]

lemma takeExponent_none (h : startsExponent text = false) : takeExponent text = ([], text) := by
  cases text with
  | nil => rfl
  | cons c rest =>
    have hc : (isExpMark c && starts isDigit (takeExpSign rest).2) = false := h
    simp [takeExponent, hc]

lemma takeSign_of_digit (h : starts isDigit text = true) : takeSign text = ([], text) := by
  unfold takeSign
  split
  · rw [starts_cons] at h
    exact absurd h (by decide)
  · rfl

/-- The same was taken off two texts, and what is left is alike behind a token that goes on. -/
def ReadAlike (taken taken' : Text × Text) : Prop :=
  taken'.1 = taken.1 ∧ ∃ before, joinsLeft before = true ∧ Alike before taken.2 taken'.2

lemma Alike.takeWhile {p : Char → Bool} (hp : ∀ c, p c = true → isIdentCont c = true)
    (h : Alike before text text') (hjoins : starts p text = true ∨ joinsLeft before = true) :
    ReadAlike (text.takeWhile p, text.dropWhile p) (text'.takeWhile p, text'.dropWhile p) := by
  induction h with
  | nil before => exact ⟨rfl, before, hjoins.resolve_left Bool.false_ne_true, .nil before⟩
  | operand hbefore _ =>
    refine absurd hjoins (not_or.mpr ⟨fun hdollar ↦ ?_, by simp [hbefore]⟩)
    exact absurd (hp '$' hdollar) (by decide)
  | @cons before c text text' h ih =>
    by_cases hc : p c = true
    · obtain ⟨heq, halike⟩ := ih (.inr (joinsLeft_identCont (hp c hc) before))
      simpa [ReadAlike, hc] using ⟨heq, halike⟩
    · simpa [ReadAlike, hc] using ⟨before, hjoins.resolve_left hc, h.cons c⟩

lemma Alike.takeDigits (h : Alike before text text')
    (hjoins : starts isDigit text = true ∨ joinsLeft before = true) :
    ReadAlike (takeDigits text) (takeDigits text') :=
  h.takeWhile (fun _ ↦ isIdentCont_of_isDigit) hjoins

lemma Alike.takeSign (h : Alike before text text') (hnumber : startsNumber text = true) :
    (takeSign text').1 = (takeSign text).1 ∧
      ∃ before, Alike before (takeSign text).2 (takeSign text').2 := by
  cases h with
  | nil => cases hnumber
  | operand => cases hnumber
  | cons c h =>
    by_cases hc : c = '-'
    · subst hc
      exact ⟨rfl, _, h⟩
    · have hsign : ∀ rest, takeSign (c :: rest) = ([], c :: rest) := fun rest ↦
        takeSign_of_digit (by simpa [startsNumber_cons, hc] using hnumber)
      rw [hsign, hsign]
      exact ⟨rfl, _, h.cons c⟩

lemma Alike.takeFraction (h : Alike before text text') (hjoins : joinsLeft before = true) :
    ReadAlike (takeFraction text) (takeFraction text') := by
  cases h with
  | nil => exact ⟨rfl, before, hjoins, .nil before⟩
  | operand hbefore => cases hjoins.symm.trans hbefore
  | @cons _ c rest rest' h =>
    have hsame : ReadAlike ([], c :: rest) ([], c :: rest') := ⟨rfl, before, hjoins, h.cons c⟩
    by_cases hc : c = '.'
    · subst hc
      simp only [Sql.takeFraction, h.starts_eq rfl isDigit]
      split_ifs
      · exact (h.takeDigits (.inr rfl)).imp_left (congrArg ('.' :: ·))
      · exact hsame
    · rw [takeFraction_none (by simp [startsFraction, hc]),
        takeFraction_none (by simp [startsFraction, hc])]
      exact hsame

lemma Alike.takeExpSign {mark : Char} (hmark : isExpMark mark = true)
    (h : Alike (mark :: before) text text') : ReadAlike (takeExpSign text) (takeExpSign text') := by
  have hjoins := joinsLeft_identCont (isIdentCont_of_isExpMark hmark) before
  cases h with
  | nil => exact ⟨rfl, _, hjoins, .nil _⟩
  | operand hbefore => cases hjoins.symm.trans hbefore
  | cons sign h =>
    simp only [Sql.takeExpSign]
    split_ifs with hsign
    · exact ⟨rfl, _, joinsLeft_expSign hsign hmark before, h⟩
    · exact ⟨rfl, _, hjoins, h.cons sign⟩

lemma Alike.takeExponent (h : Alike before text text') (hjoins : joinsLeft before = true) :
    ReadAlike (takeExponent text) (takeExponent text') := by
  cases h with
  | nil => exact ⟨rfl, before, hjoins, .nil before⟩
  | operand hbefore => cases hjoins.symm.trans hbefore
  | @cons _ mark rest rest' h =>
    have hsame : ReadAlike ([], mark :: rest) ([], mark :: rest') :=
      ⟨rfl, before, hjoins, h.cons mark⟩
    simp only [Sql.takeExponent]
    by_cases hmark : isExpMark mark = true
    · obtain ⟨hsign, behind, hbehind, halike⟩ := h.takeExpSign hmark
      obtain ⟨hdigits, hrest⟩ := halike.takeDigits (.inr hbehind)
      simp only [hmark, Bool.true_and, hsign, halike.starts_eq hbehind isDigit]
      split_ifs
      · exact ⟨by rw [hdigits], hrest⟩
      · exact hsame
    · simpa only [hmark, Bool.false_and, Bool.false_eq_true, if_false] using hsame

def numberToken (sign digits fraction exponent : Text) (suffix : Bool) : Token :=
  if suffix then .bad "malformed numeric literal"
  else if fraction = [] ∧ exponent = [] then
    .intLit (sign ++ (digits ++ (fraction ++ exponent)))
      (parseI64 (sign ++ (digits ++ (fraction ++ exponent)))).1
      (parseI64 (sign ++ (digits ++ (fraction ++ exponent)))).2
  else .floatLit (sign ++ (digits ++ (fraction ++ exponent)))

lemma lexInt_of_parts {text₁ text₂ text₃ sign fraction exponent : Text}
    (hsign : takeSign text = (sign, text₁)) (hdigits : takeDigits text₁ = (digits, text₂))
    (hfraction : takeFraction text₂ = (fraction, text₃))
    (hexponent : takeExponent text₃ = (exponent, rest)) :
    lexInt text = (⟨sign ++ (digits ++ (fraction ++ exponent)),
      numberToken sign digits fraction exponent (starts isIdentCont rest)⟩, rest) := by
  simp only [lexInt, hsign, hdigits, hfraction, hexponent, numberToken]
  split_ifs <;> rfl

lemma Alike.lexInt_eq (h : Alike before text text') (hnumber : startsNumber text = true) :
    (lexInt text').1 = (lexInt text).1 := by
  obtain ⟨hsign, before₁, h₁⟩ := h.takeSign hnumber
  obtain ⟨hdigits, before₂, hjoins₂, h₂⟩ := h₁.takeDigits (.inl hnumber)
  obtain ⟨hfraction, before₃, hjoins₃, h₃⟩ := h₂.takeFraction hjoins₂
  obtain ⟨hexponent, before₄, hjoins₄, h₄⟩ := h₃.takeExponent hjoins₃
  simp only [lexInt, hsign, hdigits, hfraction, hexponent, h₄.starts_eq hjoins₄]
  split_ifs <;> rfl

lemma ReadsString.starts_eq (h : ReadsString raw value rest) :
    starts (· == quote) rest = false := by
  induction h with
  | close h => exact h
  | doubled _ ih => exact ih
  | other _ _ ih => exact ih

lemma ReadsString.closed (h : ReadsString raw value rest) : ∃ body, raw = body ++ [quote] := by
  induction h with
  | close => exact ⟨[], rfl⟩
  | doubled _ ih =>
    obtain ⟨body, rfl⟩ := ih
    exact ⟨quote :: quote :: body, rfl⟩
  | @other c _ _ _ _ _ ih =>
    obtain ⟨body, rfl⟩ := ih
    exact ⟨c :: body, rfl⟩

lemma ReadsString.read {rest' : Text} (h : ReadsString raw value rest)
    (hrest' : starts (· == quote) rest' = false) :
    readString (raw ++ rest') = some (raw, value, rest') := by
  induction h with
  | close => exact readString_close hrest'
  | doubled _ ih =>
    rw [cons_append, cons_append, readString_doubled, ih]
    rfl
  | other hc _ ih =>
    rw [cons_append, readString_of_ne hc, ih]
    rfl

lemma lexString_congr
    (h : Alike ((lexString text).1.raw.reverse ++ before) (lexString text).2 text') {used : Text}
    (hused : (lexString text).1.raw = quote :: used) :
    (lexString (used ++ text')).1 = (lexString text).1 := by
  cases hread : readString text with
  | none =>
    simp only [lexString, hread, cons.injEq, true_and] at h hused
    cases h
    rw [append_nil, ← hused]
  | some r =>
    obtain ⟨raw, value, rest⟩ := r
    have hreads := (readString_spec hread).2
    obtain ⟨body, hbody⟩ := hreads.closed
    simp only [lexString, hread, cons.injEq, true_and] at h hused ⊢
    have hjoins : joinsLeft ((quote :: raw).reverse ++ before) = true := by
      rw [hbody]
      simp [joinsLeft]
    have hstarts := (h.starts_eq hjoins (· == quote)).trans hreads.starts_eq
    rw [← hused, hreads.read hstarts]

lemma OpensLiteral.ne (h : OpensLiteral (c :: rest)) : c ≠ ':' ∧ c ≠ '=' ∧ c ≠ '>' ∧ c ≠ '#' := by
  cases h with
  | intro hc hrest =>
    refine ⟨?_, ?_, ?_, ?_⟩ <;> rintro rfl <;> exact absurd hc (by decide)

lemma symAt_le_length (c : Char) (ahead : Text) : (symAt c ahead).2 ≤ ahead.length := by
  have hone : ∀ {x : Char}, ahead.head? = some x → 1 ≤ ahead.length := by
    intro x hx
    cases ahead with
    | nil => cases hx
    | cons y ahead => simp
  have htwo : ∀ {x : Char}, ahead.tail.head? = some x → 2 ≤ ahead.length := by
    intro x hx
    match ahead with
    | [] => cases hx
    | [_] => cases hx
    | _ :: _ :: _ => simp
  have hite : ∀ {p : Prop} [Decidable p] {a b : Token × ℕ}, (p → a.2 ≤ ahead.length) →
      b.2 ≤ ahead.length → (if p then a else b).2 ≤ ahead.length := by
    intro p _ a b ha hb
    split_ifs with hp
    exacts [ha hp, hb]
  have hzero : ∀ token : Token, (token, 0).2 ≤ ahead.length := fun _ ↦ Nat.zero_le _
  unfold symAt
  -- one step for each test of the definition
  repeat' first
    | exact hzero _
    | exact hone ‹_›
    | exact htwo ‹_›
    | exact hone ‹_ ∧ _›.2
    | exact htwo ‹_ ∧ _›.2
    | refine hite (fun _ ↦ ?_) ?_

lemma symAt_congr (h : Alike (c :: before) text text') :
    symAt c (text'.take 2) = symAt c (text.take 2) := by
  cases h with
  | nil => rfl
  | operand hbefore hopens =>
    cases hopens with
    | @intro x rest hx hrest =>
      have hne := (OpensLiteral.intro hx hrest).ne
      have hgt : ¬(x = '-' ∧ (rest.take 1).head? = some '>') := by
        rintro ⟨hminus, hhead⟩
        cases rest with
        | nil => cases hhead
        | cons y rest =>
          obtain rfl : y = '>' := some.inj hhead
          exact absurd (hrest hminus) (by simp)
      simp [symAt, hne.1, hne.2.1, hne.2.2.1, hne.2.2.2, hgt]
  | cons z h =>
    cases h with
    | nil | cons y h => rfl
    | operand hbefore hopens =>
      cases hopens with
      | @intro x rest hx hrest =>
        have hne := (OpensLiteral.intro hx hrest).ne
        simp [symAt, hne.2.2.1]

/-! ### Lexemes -/

lemma lexAt_placeholder (h : starts isDigit text = true) :
    lexAt '$' text =
      (⟨'$' :: (takeDigits text).1, .param (decimalNat (takeDigits text).1)⟩,
        (takeDigits text).2) := by
  simp [lexAt, h, show isIdentStart '$' = false by decide, show isDigit '$' = false by decide,
    show '$' ≠ quote by decide]

lemma lexAt_congr {c : Char} {text text' before : Text}
    (h : Alike ((lexAt c text).1.raw.reverse ++ before) (lexAt c text).2 text') :
    ∃ text₁, (lexAt c text).1.raw ++ text' = c :: text₁ ∧
      lexAt c text₁ = ((lexAt c text).1, text') := by
  obtain ⟨used, hused, htext⟩ : ∃ used, (lexAt c text).1.raw = c :: used ∧
      used ++ (lexAt c text).2 = text := by
    have happend := lexAt_append c text
    cases hraw : (lexAt c text).1.raw with
    | nil => exact absurd hraw (lexAt_raw_ne_nil c text)
    | cons x used =>
      rw [hraw, cons_append, cons.injEq] at happend
      exact ⟨used, by rw [happend.1], happend.2⟩
  have halike : Alike (c :: before) text (used ++ text') := by
    rw [hused, reverse_cons, append_assoc] at h
    have := h.append used
    rwa [htext] at this
  refine ⟨used ++ text', by rw [hused, cons_append], ?_⟩
  have hfirst : (lexAt c (used ++ text')).1 = (lexAt c text).1 := by
    have hdigit : c = '-' ∨ c = '$' →
        starts isDigit (used ++ text') = starts isDigit text := by
      rintro (rfl | rfl) <;> exact halike.starts_eq rfl isDigit
    have hnumber : (isDigit c || (c == '-' && starts isDigit (used ++ text'))) =
        (isDigit c || (c == '-' && starts isDigit text)) := by
      by_cases hc : c = '-'
      · rw [hdigit (.inl hc)]
      · simp only [beq_eq_false_iff_ne.mpr hc, Bool.false_and]
    have hparam : c = '$' ∧ starts isDigit (used ++ text') = true ↔
        c = '$' ∧ starts isDigit text = true :=
      and_congr_right fun hc ↦ by rw [hdigit (.inr hc)]
    simp only [lexAt, hnumber, hparam] at h hused ⊢
    split_ifs at h hused ⊢ with hident hnum hquote hpar
    · have hcont : isIdentCont c = true := by simp [isIdentCont, hident]
      have heq : (used ++ text').takeWhile isIdentCont = text.takeWhile isIdentCont :=
        (halike.takeWhile (fun _ ↦ id) (.inr (joinsLeft_identCont hcont before))).1
      rw [heq]
    · exact (halike.cons c).lexInt_eq ((startsNumber_cons c text).trans hnum)
    · exact lexString_congr h (hquote ▸ hused)
    · simp only [(halike.takeDigits (.inl hpar.2)).1]
    · have htake : text.take (symAt c (text.take 2)).2 = used := (cons.inj hused).2
      have hlen : used.length = (symAt c (text.take 2)).2 := by
        have hle := symAt_le_length c (text.take 2)
        rw [length_take] at hle
        rw [← htake, length_take]
        omega
      simp only [lexSym, symAt_congr halike, take_left' hlen, htake]
  refine Prod.ext hfirst ?_
  have happend := lexAt_append c (used ++ text')
  rw [hfirst, hused, cons_append, cons.injEq] at happend
  exact append_cancel_left happend.2

end Lockstep.Sql
