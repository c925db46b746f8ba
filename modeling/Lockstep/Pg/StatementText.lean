import Lockstep.Pg.Substitution
import Lockstep.Sql.Engine

/-!
# Statements as the session reads them

What `query/wire/PgWire.hpp` finds out about a statement from its text alone: where the statements
of a query end, the first word of one, whether it returns rows, its command tag, the columns behind
`RETURNING`, and the channel of a `LISTEN`.
-/

namespace Lockstep.Pg

open Sql Option

variable {c : Control} {L : Language} {rest : List Token} {sql t : Text}

def upper (text : Text) : Text :=
  text.map fun c ↦ if 'a' ≤ c ∧ c ≤ 'z' then Char.ofNat (c.toNat - 32) else c

def behind (needle : Text) : Text → Option Text
  | [] => if needle = [] then some [] else none
  | c :: rest =>
    if needle.isPrefixOf (c :: rest) then some ((c :: rest).drop needle.length)
    else behind needle rest

def isBlankChar (c : Char) : Bool := c == ' ' || c == '\t' || c == '\n' || c == '\r'

def isBlank (text : Text) : Bool := text.all isBlankChar

def isAlnum (c : Char) : Bool := isAlpha c || isDigit c

def trim (p : Char → Bool) (text : Text) : Text :=
  ((text.dropWhile p).reverse.dropWhile p).reverse

def number (n : ℕ) : Text := (toString n).toList

def splitAux (inStr : Bool) (cur : Text) : Text → List Text
  | [] => if isBlank cur then [] else [cur]
  | c :: rest =>
    if c = quote then splitAux (!inStr) (cur ++ [c]) rest
    else if c = ';' ∧ inStr = false then
      (if isBlank cur then [] else [cur]) ++ splitAux inStr [] rest
    else splitAux inStr (cur ++ [c]) rest

def splitStatements (sql : Text) : List Text := splitAux false [] sql

def statementHead (s : Text) : Text := lower ((s.dropWhile isSpace).takeWhile isAlpha)

def listenChannelOf (s : Text) : Option (Bool × Text) :=
  let t := trim isSpace s
  let head := lower (t.takeWhile fun c ↦ !isSpace c)
  if head ≠ "listen".toList ∧ head ≠ "unlisten".toList then none
  else
    let chan := (t.drop head.length).dropWhile isSpace
    if chan.all fun c ↦ isAlnum c || c == '_' then some (head == "unlisten".toList, chan) else none

def pgIsSelect (sql : Text) : Bool :=
  (behind " returning ".toList (lower sql)).isSome ||
    let text := upper (sql.dropWhile fun c ↦ isBlankChar c || c == '(')
    ["SELECT", "WITH", "VALUES", "TABLE", "EXPLAIN", "SHOW"].any fun kw ↦ kw.toList.isPrefixOf text

def pgCommandTag (sql : Text) (r : ExecResult) (isSelect : Bool) : Text :=
  let text := sql.dropWhile isBlankChar
  let word := text.takeWhile fun c ↦ !(isBlankChar c || c == '(')
  let kw := upper word
  if isSelect then "SELECT ".toList ++ number r.rows.length
  else if kw = "INSERT".toList then "INSERT 0 ".toList ++ number r.affected
  else if kw = "UPDATE".toList then "UPDATE ".toList ++ number r.affected
  else if kw = "DELETE".toList then "DELETE ".toList ++ number r.affected
  else if kw = "CREATE".toList ∨ kw = "DROP".toList ∨ kw = "ALTER".toList then
    let obj := upper (((text.drop word.length).dropWhile fun c ↦ c == ' ' || c == '\t').takeWhile
      fun c ↦ !(c == ' ' || c == '\t' || c == '(' || c == '\n'))
    kw ++ if obj = [] then [] else ' ' :: obj
  else if kw = [] then "OK".toList
  else kw

def columnNames (text : Text) : List Text :=
  ((text.splitOn ',').map fun part ↦
    ((trim (· == ' ') part).reverse.takeWhile (· != '.')).reverse).filter (· ≠ [])

def returningColumns (sql : Text) : List Text :=
  match behind " returning ".toList (lower sql) with
  | none => []
  | some rest => columnNames (sql.drop (sql.length - rest.length))

def intoTable (sql : Text) : Option Text :=
  (behind "into ".toList (lower sql)).map fun rest ↦
    (sql.drop (sql.length - rest.length)).takeWhile fun c ↦ isAlnum c || c == '_' || c == '.'

def countParamsAux : ℕ → Bool → Text → ℤ → ℤ
  | 0, _, _, maxn => maxn
  | _ + 1, _, [], maxn => maxn
  | fuel + 1, inStr, c :: rest, maxn =>
    if c = quote then countParamsAux fuel (!inStr) rest maxn
    else if inStr = false ∧ c = '$' ∧ starts isNonzeroDigit rest = true then
      let n := (takeDigits rest).1.foldl
        (fun (n : ℤ) c ↦ Int.bmod (n * 10 + (c.toNat - '0'.toNat : ℕ)) (2 ^ 16)) 0
      countParamsAux fuel inStr rest (if maxn < n then n else maxn)
    else countParamsAux fuel inStr rest maxn

def countParams (sql : Text) : ℤ := countParamsAux sql.length false sql 0

/-! ### The first word and the parser -/

def isIdent : Token → Bool
  | .ident _ => true
  | _ => false

lemma isIdent_symAt (c : Char) (ahead : Text) : isIdent (symAt c ahead).1 = false := by
  have hite : ∀ {p : Prop} [Decidable p] {a b : Token × ℕ}, isIdent a.1 = false →
      isIdent b.1 = false → isIdent (if p then a else b).1 = false := by
    intro p _ a b ha hb
    split_ifs
    · exact ha
    · exact hb
  unfold symAt
  repeat' first
    | exact rfl
    | refine hite ?_ ?_

lemma isIdent_lexInt (text : Text) : isIdent (lexInt text).1.token = false := by
  unfold lexInt
  dsimp only
  split_ifs <;> rfl

lemma isIdent_lexString (text : Text) : isIdent (lexString text).1.token = false := by
  unfold lexString
  split <;> rfl

lemma lexAt_ident {c : Char} {rest : Text} (h : (lexAt c rest).1.token = .ident t) :
    isIdentStart c = true ∧ t = c :: rest.takeWhile isIdentCont := by
  have hident : isIdent (lexAt c rest).1.token = true := by rw [h]; rfl
  unfold lexAt at h hident
  split_ifs at h hident with hstart
  · exact ⟨hstart, (Token.ident.inj h).symm⟩
  · rw [isIdent_lexInt] at hident
    cases hident
  · rw [isIdent_lexString] at hident
    cases hident
  · cases (isIdent_symAt c (rest.take 2)).symm.trans hident

lemma isIdentCont_of_isIdentStart {c : Char} (h : isIdentStart c = true) :
    isIdentCont c = true := by
  rw [isIdentCont, h, Bool.true_or]

lemma isIdentCont_of_isAlpha {c : Char} (h : isAlpha c = true) : isIdentCont c = true := by
  rw [isIdentCont, isIdentStart, h, Bool.true_or, Bool.true_or]

lemma statementHead_of_ident (h : tokens sql = .ident t :: rest) :
    statementHead sql = lower (t.takeWhile isAlpha) := by
  cases hnext : next sql with
  | none =>
    rw [tokens, lexemes_of_none hnext] at h
    exact absurd h (List.cons_ne_nil _ _).symm
  | some found =>
    obtain ⟨lexeme, behind⟩ := found
    rw [tokens, lexemes_of_next hnext, List.map_cons] at h
    obtain ⟨spaces, c, text, hspaces, hc, rfl, hlex⟩ := next_eq_some hnext
    have htoken : (lexAt c text).1.token = .ident t := by
      rw [hlex]
      exact (List.cons.inj h).1
    obtain ⟨hstart, rfl⟩ := lexAt_ident htoken
    rw [statementHead, dropWhile_append_eq hspaces (by simpa using hc)]
    have hident : c :: text.takeWhile isIdentCont = (c :: text).takeWhile isIdentCont := by
      rw [List.takeWhile_cons, if_pos (isIdentCont_of_isIdentStart hstart)]
    rw [hident, List.takeWhile_takeWhile]
    congr 2
    funext x
    by_cases hx : isAlpha x = true
    · simp [hx, isIdentCont_of_isAlpha hx]
    · simp [hx]

lemma isAlpha_of_lower (h : ∀ c ∈ lower t, isAlpha c = true) : t.takeWhile isAlpha = t := by
  rw [List.takeWhile_eq_self_iff]
  intro c hc
  have hlow := h _ (List.mem_map_of_mem hc)
  split_ifs at hlow with hupper
  · simp [isAlpha, hupper.1, hupper.2]
  · exact hlow

def controlKeyword : Control → Text
  | .begin => kwBegin
  | .commit => kwCommit
  | .rollback => kwRollback
  | .savepoint _ => kwSavepoint
  | .rollbackTo _ => kwRollback
  | .release _ => kwRelease

lemma isAlpha_controlKeyword (c : Control) : ∀ x ∈ controlKeyword c, isAlpha x = true := by
  cases c <;> exact List.all_eq_true.mp rfl

lemma endOfStatement_ok {α : Type} {statement st : α}
    (h : endOfStatement statement rest = .ok st) : statement = st := by
  unfold endOfStatement at h
  split_ifs at h
  exact Except.ok.inj h

lemma named_ok {what : String} {f : Text → Control} {tokens : List Token} (h : (do
      let (name, rest) ← expectIdent what tokens
      endOfStatement (f name) rest) = .ok c) : ∃ name, c = f name := by
  cases hname : expectIdent what tokens with
  | error msg =>
    rw [hname] at h
    exact absurd h (by rintro ⟨⟩)
  | ok found =>
    rw [hname] at h
    exact ⟨found.1, (endOfStatement_ok h).symm⟩

lemma parseControl_ok {kw : Text} (h : parseControl kw rest = some (.ok c)) :
    kw = controlKeyword c := by
  unfold parseControl at h
  split_ifs at h with hbegin hcommit hrollback hsavepoint hrelease
  · rw [← endOfStatement_ok (some.inj h)]
    exact hbegin
  · rw [← endOfStatement_ok (some.inj h)]
    exact hcommit
  · dsimp only at h
    split_ifs at h
    · obtain ⟨name, rfl⟩ := named_ok (some.inj h)
      exact hrollback
    · rw [← endOfStatement_ok (some.inj h)]
      exact hrollback
  · obtain ⟨name, rfl⟩ := named_ok (some.inj h)
    exact hsavepoint
  · obtain ⟨name, rfl⟩ := named_ok (some.inj h)
    exact hrelease

lemma parseSql_ok {st : Statement L} (h : parseSql L sql = .ok st) :
    ∃ t rest, tokens sql = .ident t :: rest ∧
      ((∃ c, st = .control c ∧ parseControl (lower t) rest = some (.ok c)) ∨
        ∃ s, st = .other s ∧ parseControl (lower t) rest = none ∧
          L.parse (.ident t :: rest) = .ok s) := by
  unfold parseSql at h
  split at h
  · next t rest htokens =>
    refine ⟨t, rest, htokens, ?_⟩
    split at h
    · next c hc => exact .inl ⟨c, (Except.ok.inj h).symm, hc⟩
    · exact absurd h (by rintro ⟨⟩)
    · next hnone =>
      cases hparse : L.parse (.ident t :: rest) with
      | error msg =>
        rw [hparse] at h
        exact absurd h (by rintro ⟨⟩)
      | ok s =>
        rw [hparse] at h
        exact .inr ⟨s, (Except.ok.inj h).symm, hnone, rfl⟩
  · exact absurd h (by rintro ⟨⟩)

lemma statementHead_of_control (h : parseSql L sql = .ok (.control c)) :
    statementHead sql = controlKeyword c := by
  obtain ⟨t, rest, htokens, ⟨c', hc', hcontrol⟩ | ⟨s, hs, -⟩⟩ := parseSql_ok h
  · obtain rfl : c = c' := Statement.control.inj hc'
    have hkw := parseControl_ok hcontrol
    have hall : ∀ x ∈ lower t, isAlpha x = true := by
      rw [hkw]
      exact isAlpha_controlKeyword c
    rw [statementHead_of_ident htokens, isAlpha_of_lower hall, hkw]
  · exact absurd hs (by rintro ⟨⟩)

/-- The keywords of all statements consist of letters, as those of the SQL parser do. -/
def WordKeywords (L : Language) : Prop :=
  ∀ t rest s, L.parse (.ident t :: rest) = .ok s → ∀ c ∈ t, isAlpha c = true

lemma control_of_statementHead (hwords : WordKeywords L) {st : Statement L}
    (h : parseSql L sql = .ok st)
    (hhead : statementHead sql = kwBegin ∨ statementHead sql = kwCommit ∨
      statementHead sql = kwRollback) :
    ∃ c, st = .control c ∧ controlKeyword c = statementHead sql := by
  obtain ⟨t, rest, htokens, ⟨c, rfl, hcontrol⟩ | ⟨s, rfl, hnone, hparse⟩⟩ := parseSql_ok h
  · exact ⟨c, rfl, (statementHead_of_control h).symm⟩
  -- the identifier is the keyword itself, which the other statements do not have
  have hword : t.takeWhile isAlpha = t :=
    List.takeWhile_eq_self_iff.mpr (hwords t rest s hparse)
  rw [statementHead_of_ident htokens, hword] at hhead
  unfold parseControl at hnone
  rcases hhead with hkw | hkw | hkw
  · rw [if_pos hkw] at hnone
    cases hnone
  · rw [if_neg (by rw [hkw]; decide), if_pos hkw] at hnone
    cases hnone
  · rw [if_neg (by rw [hkw]; decide), if_neg (by rw [hkw]; decide), if_pos hkw] at hnone
    cases hnone

end Lockstep.Pg
