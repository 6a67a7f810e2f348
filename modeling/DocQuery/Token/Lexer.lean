import DocQuery.Error
import DocQuery.Text.Blank
import DocQuery.Text.Case
import DocQuery.Text.Letter

/-!
# Cutting a query into tokens

`Token.ofText` gives the tokens of a query, the last one its end. Between two tokens there
may be layout: blanks, and comments from `--` to the end of a line. A lexeme carries the
characters it is spelled with and the proof that they and its rest are all there was, so
the offsets add up and the reading ends.
-/

namespace DocQuery

/-- A token's kind and text, the characters that spell it, and what follows them. The
    token is placed at the anchor, a place within its spelling. -/
structure Lexeme (cs : List Char) where
  kind : TokenKind
  text : String
  anchor : Nat
  spelling : List Char
  rest : List Char
  spelled : spelling ++ rest = cs
  nonempty : spelling ≠ []

namespace Lexeme

theorem length_rest_lt {cs : List Char} (l : Lexeme cs) : l.rest.length < cs.length := by
  have h := congrArg List.length l.spelled
  have := List.length_pos_iff.mpr l.nonempty
  rw [List.length_append] at h
  omega

-- ── Numbers, strings and words ──────────────────────────────────────────────

/-- The digits of a number with at most one point, which needs a digit after it. -/
def spanNumber (pointSeen : Bool) : List Char → List Char × List Char
  | [] => ([], [])
  | c :: cs =>
    if c.isDigit then
      let (taken, rest) := spanNumber pointSeen cs
      (c :: taken, rest)
    else if c = '.' ∧ pointSeen = false ∧ cs.head?.any Char.isDigit then
      let (taken, rest) := spanNumber true cs
      (c :: taken, rest)
    else ([], c :: cs)

theorem spanNumber_append (pointSeen : Bool) (cs : List Char) :
    (spanNumber pointSeen cs).1 ++ (spanNumber pointSeen cs).2 = cs := by
  induction cs generalizing pointSeen with
  | nil => rfl
  | cons c cs ih =>
    simp only [spanNumber]
    split
    · simp [ih]
    · split
      · simp [ih]
      · rfl

/-- A number that starts with a character, a digit or a minus sign. -/
def number (c : Char) (cs : List Char) : Lexeme (c :: cs) :=
  { kind := .number
    text := String.ofList (c :: (spanNumber false cs).1)
    anchor := 0
    spelling := c :: (spanNumber false cs).1
    rest := (spanNumber false cs).2
    spelled := by rw [List.cons_append, spanNumber_append]
    nonempty := List.cons_ne_nil _ _ }

/-- What stands before the first quote, and what stands after it. -/
def splitAtQuote? (quote : Char) : List Char → Option (List Char × List Char)
  | [] => none
  | c :: cs =>
    if c = quote then some ([], cs)
    else (splitAtQuote? quote cs).map fun p => (c :: p.1, p.2)

theorem append_of_splitAtQuote? {quote : Char} {cs : List Char} {p : List Char × List Char}
    (h : splitAtQuote? quote cs = some p) : p.1 ++ quote :: p.2 = cs := by
  induction cs generalizing p with
  | nil => simp [splitAtQuote?] at h
  | cons c cs ih =>
    by_cases hc : c = quote
    · simp only [splitAtQuote?, hc, if_true, Option.some.injEq] at h
      subst h; simp [hc]
    · simp only [splitAtQuote?, hc, if_false, Option.map_eq_some_iff] at h
      obtain ⟨q, hq, rfl⟩ := h
      simp [ih hq]

/-- A string: it has no escapes and ends at the next quote of its kind. -/
def string? (quote : Char) (cs : List Char) : Option (Lexeme (quote :: cs)) :=
  match h : splitAtQuote? quote cs with
  | none => none
  | some (body, rest) => some
    { kind := .string
      text := String.ofList body
      anchor := 0
      spelling := quote :: body ++ [quote]
      rest := rest
      spelled := by
        have := append_of_splitAtQuote? h
        simpa using this
      nonempty := by simp }

/-- A word that starts with a character: a keyword in any case, or an identifier. -/
def word (c : Char) (cs : List Char) : Lexeme (c :: cs) :=
  let spelling := c :: cs.takeWhile Text.continuesWord
  let text := String.ofList spelling
  let upper := Text.upper text
  { kind := if Token.keywords.contains upper then .keyword else .identifier
    text := if Token.keywords.contains upper then upper else text
    anchor := 0
    spelling := spelling
    rest := cs.dropWhile Text.continuesWord
    spelled := by rw [List.cons_append, List.takeWhile_append_dropWhile]
    nonempty := List.cons_ne_nil _ _ }

-- ── Signs ───────────────────────────────────────────────────────────────────

/-- A sign of one character. -/
def one (kind : TokenKind) (c : Char) (cs : List Char) : Lexeme (c :: cs) :=
  ⟨kind, c.toString, 0, [c], cs, rfl, List.cons_ne_nil _ _⟩

/-- An operator of two characters, placed at one of them. -/
def two (text : String) (anchor : Nat) (c d : Char) (cs : List Char) : Lexeme (c :: d :: cs) :=
  ⟨.operator, text, anchor, [c, d], cs, rfl, List.cons_ne_nil _ _⟩

/-- A sign of punctuation or an operator; `<>` is another spelling of `!=`. The operator
    `!=` is placed at its equals sign, every other one at its first character. -/
def sign? : (cs : List Char) → Option (Lexeme cs)
  | '*' :: cs => some (one .star '*' cs)
  | ',' :: cs => some (one .comma ',' cs)
  | '.' :: cs => some (one .dot '.' cs)
  | '@' :: cs => some (one .at '@' cs)
  | '(' :: cs => some (one .leftParen '(' cs)
  | ')' :: cs => some (one .rightParen ')' cs)
  | ';' :: cs => some (one .semicolon ';' cs)
  | '=' :: cs => some (one .operator '=' cs)
  | '!' :: '=' :: cs => some (two "!=" 1 '!' '=' cs)
  | '<' :: '=' :: cs => some (two "<=" 0 '<' '=' cs)
  | '<' :: '>' :: cs => some (two "!=" 0 '<' '>' cs)
  | '<' :: cs => some (one .operator '<' cs)
  | '>' :: '=' :: cs => some (two ">=" 0 '>' '=' cs)
  | '>' :: cs => some (one .operator '>' cs)
  | _ => none

/-- The lexeme that starts with a character at a position. -/
def read (position : Nat) (c : Char) (cs : List Char) : Except QueryError (Lexeme (c :: cs)) :=
  if c.isDigit || (c == '-' && cs.head?.any Char.isDigit) then .ok (number c cs)
  else if c = '\'' ∨ c = '"' then
    match string? c cs with
    | some l => .ok l
    | none => .error (.unterminatedString position)
  else if Text.startsWord c then .ok (word c cs)
  else match sign? (c :: cs) with
    | some l => .ok l
    | none => .error (.unexpectedCharacter c position)

end Lexeme

namespace Token

-- ── Layout ──────────────────────────────────────────────────────────────────

/-- The position after the layout at the front of a text that starts at a position, and
    the text from there. A comment ends with its line. -/
def skipLayout (inComment : Bool) (position : Nat) : List Char → Nat × List Char
  | [] => (position, [])
  | c :: cs =>
    if inComment then skipLayout (c != '\n') (position + 1) cs
    else if Text.isBlank c then skipLayout false (position + 1) cs
    else if c = '-' ∧ cs.head? = some '-' then skipLayout true (position + 1) cs
    else (position, c :: cs)

theorem skipLayout_length (inComment : Bool) (position : Nat) (cs : List Char) :
    (skipLayout inComment position cs).1 + (skipLayout inComment position cs).2.length
      = position + cs.length := by
  induction cs generalizing inComment position with
  | nil => rfl
  | cons c cs ih =>
    simp only [skipLayout]
    split
    · rw [ih, List.length_cons]; omega
    · split
      · rw [ih, List.length_cons]; omega
      · split
        · rw [ih, List.length_cons]; omega
        · rfl

theorem le_skipLayout (inComment : Bool) (position : Nat) (cs : List Char) :
    position ≤ (skipLayout inComment position cs).1 := by
  induction cs generalizing inComment position with
  | nil => exact Nat.le_refl _
  | cons c cs ih =>
    simp only [skipLayout]
    split
    · exact Nat.le_of_succ_le (ih _ _)
    · split
      · exact Nat.le_of_succ_le (ih _ _)
      · split
        · exact Nat.le_of_succ_le (ih _ _)
        · exact Nat.le_refl _

-- ── All tokens ──────────────────────────────────────────────────────────────

/-- The tokens of a text that starts at a position, its end the last of them. -/
def tokensFrom (position : Nat) (cs : List Char) : Except QueryError (List Token) :=
  match _h : skipLayout false position cs with
  | (start, []) => .ok [⟨.endOfInput, "", start⟩]
  | (start, c :: rest) => do
    let l ← Lexeme.read start c rest
    let others ← tokensFrom (start + l.spelling.length) l.rest
    .ok (⟨l.kind, l.text, start + l.anchor⟩ :: others)
termination_by cs.length
decreasing_by
  have h₁ := l.length_rest_lt
  have h₂ := skipLayout_length false position cs
  have h₃ := le_skipLayout false position cs
  rw [_h] at h₂ h₃
  simp only at h₁ h₂ h₃
  omega

/-- The tokens of a query. -/
def ofText (source : String) : Except QueryError (List Token) :=
  tokensFrom 0 source.toList

end Token

end DocQuery
