import DocQuery.Proofs.Except
import DocQuery.Token.Lexer
import Mathlib.Data.List.TakeWhile

/-!
# What a lexeme is

A lexeme is said without the reader (`Spelled`): the characters that spell a token of a kind and
a text, in front of the text that follows. What follows counts because a word, a number and a
sign are as long as they can be.

* `isSpelled_read` — whatever is read is a lexeme, placed at its first character but for `!=`;
* `read_eq_error` — nothing is read only of a quote that is never closed, or of a character that
  starts no lexeme, and both are reported where they stand.
-/

namespace DocQuery

variable {c : Char} {cs rest : List Char}

-- ── Characters that end a lexeme ────────────────────────────────────────────

/-- The text does not start with a character of the class. -/
def Stops (p : Char → Bool) (rest : List Char) : Prop :=
  ∀ c ∈ rest.head?, p c = false

theorem stops_nil (p : Char → Bool) : Stops p [] := by
  intro c hc
  exact nomatch hc

theorem stops_cons {p : Char → Bool} : Stops p (c :: rest) ↔ p c = false := by
  constructor
  · intro h
    exact h c rfl
  · intro h d hd
    rw [← Option.some.inj hd]
    exact h

/-- The rest stops if its first character, if any, does not go on. -/
theorem stops_iff {p : Char → Bool} : Stops p rest ↔ rest.head?.any p = false := by
  cases rest with
  | nil => exact iff_of_true (stops_nil p) rfl
  | cons c tail => exact stops_cons

theorem stops_dropWhile (p : Char → Bool) (cs : List Char) : Stops p (cs.dropWhile p) := by
  intro c hc
  rw [Option.mem_def, List.head?_eq_some_iff] at hc
  obtain ⟨tail, htail⟩ := hc
  have hne : cs.dropWhile p ≠ [] := by
    rw [htail]
    exact List.cons_ne_nil _ _
  have hhead := List.head_dropWhile_not p hne
  simp only [htail, List.head_cons] at hhead
  exact hhead

-- ── Spellings ───────────────────────────────────────────────────────────────

namespace Token

/-- One digit or more. -/
structure Digits (cs : List Char) : Prop where
  nonempty : cs ≠ []
  digits : ∀ c ∈ cs, c.isDigit = true

/-- A minus sign or nothing. -/
inductive Sign : List Char → Prop where
  | none : Sign []
  | minus : Sign ['-']

/-- A point with digits after it, or nothing. -/
inductive Fraction : List Char → Prop where
  | none : Fraction []
  | digits {ds : List Char} : Digits ds → Fraction ('.' :: ds)

/-- The number does not go on: there is no digit, and after a whole number no fraction. -/
structure NumberEnds (fraction rest : List Char) : Prop where
  noDigit : Stops Char.isDigit rest
  noFraction : fraction = [] → ∀ tail, rest = '.' :: tail → Stops Char.isDigit tail

/-- The signs: their kinds, their texts and how they are written. -/
def signs : List (TokenKind × String × List Char) :=
  [(.star, "*", ['*']), (.comma, ",", [',']), (.dot, ".", ['.']), (.at, "@", ['@']),
   (.leftParen, "(", ['(']), (.rightParen, ")", [')']), (.semicolon, ";", [';']),
   (.operator, "=", ['=']), (.operator, "!=", ['!', '=']), (.operator, "!=", ['<', '>']),
   (.operator, "<", ['<']), (.operator, "<=", ['<', '=']), (.operator, ">", ['>']),
   (.operator, ">=", ['>', '='])]

/-- The characters spell a token of a kind and a text in front of the rest: a keyword in any
    case, an identifier or a number as it is, the text between two equal quotes, or a sign. -/
inductive Spelled : TokenKind → String → List Char → List Char → Prop where
  | keyword {c : Char} {cs rest : List Char} : Text.startsWord c = true →
      (∀ d ∈ cs, Text.continuesWord d = true) → Stops Text.continuesWord rest →
      Text.upper (String.ofList (c :: cs)) ∈ keywords →
      Spelled .keyword (Text.upper (String.ofList (c :: cs))) (c :: cs) rest
  | identifier {c : Char} {cs rest : List Char} : Text.startsWord c = true →
      (∀ d ∈ cs, Text.continuesWord d = true) → Stops Text.continuesWord rest →
      Text.upper (String.ofList (c :: cs)) ∉ keywords →
      Spelled .identifier (String.ofList (c :: cs)) (c :: cs) rest
  | number {sign whole fraction rest : List Char} : Sign sign → Digits whole →
      Fraction fraction → NumberEnds fraction rest →
      Spelled .number (String.ofList (sign ++ whole ++ fraction)) (sign ++ whole ++ fraction) rest
  | string {quote : Char} {body rest : List Char} : quote = '\'' ∨ quote = '"' →
      quote ∉ body → Spelled .string (String.ofList body) (quote :: body ++ [quote]) rest
  | sign {kind : TokenKind} {text : String} {cs rest : List Char} : (kind, text, cs) ∈ signs →
      (∀ d ∈ rest.head?, ∀ s ∈ signs, s.2.2 ≠ cs ++ [d]) → Spelled kind text cs rest

/-- Where within its lexeme a token is placed: at the first character, but `!=` at its equals
    sign. -/
def anchorOf (cs : List Char) : Nat :=
  if cs = ['!', '='] then 1 else 0

theorem anchorOf_cons (h : c ≠ '!') : anchorOf (c :: cs) = 0 :=
  if_neg fun heq => h (List.cons.inj heq).1

/-- Every lexeme has a character. -/
theorem Spelled.ne_nil {kind : TokenKind} {text : String} (h : Spelled kind text cs rest) :
    cs ≠ [] := by
  cases h with
  | keyword _ _ _ _ => exact List.cons_ne_nil _ _
  | identifier _ _ _ _ => exact List.cons_ne_nil _ _
  | number _ hwhole _ _ =>
      intro hnil
      rw [List.append_eq_nil_iff, List.append_eq_nil_iff] at hnil
      exact hwhole.nonempty hnil.1.2
  | string _ _ => exact List.cons_ne_nil _ _
  | sign hmem _ =>
      have hall : ∀ s ∈ signs, s.2.2 ≠ [] := by decide
      exact hall _ hmem

/-- The end of a text is no lexeme. -/
theorem Spelled.kind_ne {kind : TokenKind} {text : String} (h : Spelled kind text cs rest) :
    kind ≠ .endOfInput := by
  cases h with
  | sign hmem _ =>
      have hall : ∀ s ∈ signs, s.1 ≠ .endOfInput := by decide
      exact hall _ hmem
  | keyword _ _ _ _ | identifier _ _ _ _ | number _ _ _ _ | string _ _ =>
      exact TokenKind.noConfusion

/-- A token is placed within its lexeme. -/
theorem anchorOf_lt {kind : TokenKind} {text : String} (h : Spelled kind text cs rest) :
    anchorOf cs < cs.length := by
  rw [anchorOf]
  split
  · rename_i heq
    rw [heq]
    decide
  · exact List.length_pos_iff.mpr h.ne_nil

end Token

-- ── What is read ────────────────────────────────────────────────────────────

namespace Lexeme

open Token

/-- The lexeme is what its characters spell, and placed where they say. -/
structure IsSpelled (l : Lexeme cs) : Prop where
  spelled : Spelled l.kind l.text l.spelling l.rest
  anchor : l.anchor = anchorOf l.spelling

/-- Behind a point there are digits only. -/
theorem spanNumber_true (cs : List Char) :
    spanNumber true cs = (cs.takeWhile Char.isDigit, cs.dropWhile Char.isDigit) := by
  induction cs with
  | nil => rfl
  | cons c cs ih =>
      rw [spanNumber, ih, List.takeWhile_cons, List.dropWhile_cons]
      cases c.isDigit <;> simp

/-- The digits in front are digits, and there is one. -/
theorem digits_takeWhile (h : cs.head?.any Char.isDigit = true) :
    Digits (cs.takeWhile Char.isDigit) := by
  refine ⟨?_, fun d hd => List.mem_takeWhile_imp hd⟩
  cases cs with
  | nil => exact nomatch h
  | cons d tail =>
      have hd : d.isDigit = true := h
      rw [List.takeWhile_cons, if_pos hd]
      exact List.cons_ne_nil _ _

/-- What is taken of a number's characters are digits and a fraction. -/
theorem spanNumber_false (cs : List Char) : ∃ fraction,
    (spanNumber false cs).1 = cs.takeWhile Char.isDigit ++ fraction ∧
      Fraction fraction ∧ NumberEnds fraction (spanNumber false cs).2 := by
  induction cs with
  | nil =>
      refine ⟨[], rfl, .none, stops_nil _, ?_⟩
      intro _ tail htail
      exact absurd htail.symm (List.cons_ne_nil _ _)
  | cons c cs ih =>
      rw [spanNumber]
      by_cases hdigit : c.isDigit = true
      · obtain ⟨fraction, htaken, hfraction, hends⟩ := ih
        rw [if_pos hdigit, List.takeWhile_cons, if_pos hdigit]
        refine ⟨fraction, ?_, hfraction, hends⟩
        rw [List.cons_append, ← htaken]
      · rw [if_neg hdigit, List.takeWhile_cons, if_neg hdigit]
        by_cases hpoint : c = '.' ∧ false = false ∧ cs.head?.any Char.isDigit
        · obtain ⟨rfl, -, hhead⟩ := hpoint
          rw [if_pos ⟨rfl, rfl, hhead⟩, spanNumber_true]
          refine ⟨_, rfl, .digits (digits_takeWhile hhead), stops_dropWhile _ _, ?_⟩
          intro hnone
          exact absurd hnone (List.cons_ne_nil _ _)
        · rw [if_neg hpoint]
          refine ⟨[], rfl, .none, stops_cons.mpr (Bool.eq_false_iff.mpr hdigit), ?_⟩
          rintro - tail htail
          obtain ⟨rfl, rfl⟩ := List.cons.inj htail
          rw [stops_iff, Bool.eq_false_iff]
          exact fun hhead => hpoint ⟨rfl, rfl, hhead⟩

/-- What is read as a number is one. -/
theorem isSpelled_number (h : (c.isDigit || (c == '-' && cs.head?.any Char.isDigit)) = true) :
    (number c cs).IsSpelled := by
  obtain ⟨fraction, htaken, hfraction, hends⟩ := spanNumber_false cs
  have hne : c ≠ '!' := by
    rintro rfl
    exact absurd h (by simp)
  refine ⟨?_, (anchorOf_cons hne).symm⟩
  simp only [number, htaken]
  by_cases hdigit : c.isDigit = true
  · have hwhole : Digits (c :: cs.takeWhile Char.isDigit) := by
      refine ⟨List.cons_ne_nil _ _, ?_⟩
      intro d hd
      rcases List.mem_cons.mp hd with rfl | hd
      · exact hdigit
      · exact List.mem_takeWhile_imp hd
    exact .number .none hwhole hfraction hends
  · rw [Bool.or_eq_true, Bool.and_eq_true] at h
    obtain ⟨hminus, hhead⟩ := h.resolve_left hdigit
    rw [beq_iff_eq.mp hminus]
    exact .number .minus (digits_takeWhile hhead) hfraction hends

/-- There is no quote in what is cut off at the first one. -/
theorem not_mem_of_splitAtQuote? {quote : Char} {p : List Char × List Char}
    (h : splitAtQuote? quote cs = some p) : quote ∉ p.1 := by
  induction cs generalizing p with
  | nil => exact nomatch h
  | cons c cs ih =>
      rw [splitAtQuote?] at h
      split at h
      · rw [← Option.some.inj h]
        exact List.not_mem_nil
      · rename_i hne
        obtain ⟨q, hq, rfl⟩ := Option.map_eq_some_iff.mp h
        intro hmem
        rcases List.mem_cons.mp hmem with heq | hmem
        · exact hne heq.symm
        · exact ih hq hmem

/-- If nothing is cut off, there is no quote. -/
theorem not_mem_of_splitAtQuote?_eq_none {quote : Char} (h : splitAtQuote? quote cs = none) :
    quote ∉ cs := by
  induction cs with
  | nil => exact List.not_mem_nil
  | cons c cs ih =>
      rw [splitAtQuote?] at h
      split at h
      · cases h
      · rename_i hne
        intro hmem
        rcases List.mem_cons.mp hmem with heq | hmem
        · exact hne heq.symm
        · exact ih (Option.map_eq_none_iff.mp h) hmem

/-- What is read between quotes is a string. -/
theorem isSpelled_string? {quote : Char} (hquote : quote = '\'' ∨ quote = '"')
    {l : Lexeme (quote :: cs)} (h : string? quote cs = some l) : l.IsSpelled := by
  unfold string? at h
  split at h
  · exact nomatch h
  · rename_i body rest hsplit
    rw [← Option.some.inj h]
    refine ⟨.string hquote (not_mem_of_splitAtQuote? hsplit), ?_⟩
    rcases hquote with rfl | rfl <;> rfl

/-- No string is read if the quote is not closed. -/
theorem string?_eq_none {quote : Char} (h : string? quote cs = none) : quote ∉ cs := by
  unfold string? at h
  split at h
  · rename_i hsplit
    exact not_mem_of_splitAtQuote?_eq_none hsplit
  · exact nomatch h

/-- What is read as a word is a keyword or an identifier. -/
theorem isSpelled_word (h : Text.startsWord c = true) : (word c cs).IsSpelled := by
  have hne : c ≠ '!' := by
    rintro rfl
    exact absurd h (by decide)
  refine ⟨?_, (anchorOf_cons hne).symm⟩
  have hcont : ∀ d ∈ cs.takeWhile Text.continuesWord, Text.continuesWord d = true :=
    fun d hd => List.mem_takeWhile_imp hd
  have hstops := stops_dropWhile Text.continuesWord cs
  simp only [word]
  split
  · rename_i hkey
    exact .keyword h hcont hstops (List.contains_iff_mem.mp hkey)
  · rename_i hkey
    exact .identifier h hcont hstops fun hmem => hkey (List.contains_iff_mem.mpr hmem)

/-- A sign of two characters ends with an equals sign, or it is `<>`. -/
theorem eq_of_mem_signs {s : TokenKind × String × List Char} (hs : s ∈ signs) {d : Char}
    (h : s.2.2 = [c, d]) :
    (c = '!' ∨ c = '<' ∨ c = '>') ∧ (d = '=' ∨ c = '<' ∧ d = '>') := by
  have hall : ∀ s ∈ signs, s.2.2.length = 2 →
      s.2.2 ∈ [['!', '='], ['<', '='], ['<', '>'], ['>', '=']] := by decide
  have hpair := hall s hs (by rw [h]; rfl)
  rw [h] at hpair
  simp only [List.mem_cons, List.cons.injEq, List.not_mem_nil, and_true, or_false] at hpair
  tauto

/-- A sign of one character is read unless a longer one is there. -/
theorem isSpelled_one {kind : TokenKind} (hmem : (kind, c.toString, [c]) ∈ signs)
    (hlonger : ∀ d tail, cs = d :: tail → ∀ s ∈ signs, s.2.2 ≠ [c, d]) :
    (one kind c cs).IsSpelled := by
  refine ⟨.sign hmem ?_, (if_neg ?_).symm⟩
  · intro d hd
    obtain ⟨tail, htail⟩ := List.head?_eq_some_iff.mp hd
    exact hlonger d tail htail
  · intro heq
    exact nomatch (List.cons.inj heq).2

/-- Most signs of one character start no longer one. -/
theorem isSpelled_lone {kind : TokenKind} (hmem : (kind, c.toString, [c]) ∈ signs)
    (hc : ¬ (c = '!' ∨ c = '<' ∨ c = '>')) : (one kind c cs).IsSpelled := by
  refine isSpelled_one hmem ?_
  intro d _ _ s hs heq
  exact hc (eq_of_mem_signs hs heq).1

/-- A sign of two characters is always read. -/
theorem isSpelled_two {text : String} {anchor : Nat} {d : Char}
    (hmem : (.operator, text, [c, d]) ∈ signs) (hanchor : anchor = anchorOf [c, d]) :
    (two text anchor c d cs).IsSpelled := by
  refine ⟨.sign hmem ?_, hanchor⟩
  intro e _ s hs heq
  have hall : ∀ s ∈ signs, s.2.2.length ≤ 2 := by decide
  have hle := hall s hs
  rw [heq] at hle
  exact absurd hle (by decide : ¬ 3 ≤ 2)

/-- What is read as a sign is one of the signs. -/
theorem isSpelled_sign? {l : Lexeme cs} (h : sign? cs = some l) : l.IsSpelled := by
  unfold sign? at h
  split at h
  case h_15 => exact nomatch h
  all_goals obtain rfl := Option.some.inj h
  case h_1 | h_2 | h_3 | h_4 | h_5 | h_6 | h_7 | h_8 =>
    exact isSpelled_lone (by decide) (by decide)
  case h_9 | h_10 | h_11 | h_13 => exact isSpelled_two (by decide) (by decide)
  case h_12 hequal hmore =>
    refine isSpelled_one (by decide) ?_
    rintro d tail rfl s hs heq
    rcases (eq_of_mem_signs hs heq).2 with rfl | ⟨-, rfl⟩
    · exact hequal tail rfl
    · exact hmore tail rfl
  case h_14 hequal =>
    refine isSpelled_one (by decide) ?_
    rintro d tail rfl s hs heq
    rcases (eq_of_mem_signs hs heq).2 with rfl | ⟨hless, -⟩
    · exact hequal tail rfl
    · exact absurd hless (by decide)

/-- What is read is a lexeme, placed where its spelling says. -/
theorem isSpelled_read {position : Nat} {l : Lexeme (c :: cs)} (h : read position c cs = .ok l) :
    l.IsSpelled := by
  rw [read] at h
  split at h
  · rename_i hnumber
    obtain rfl := Except.ok.inj h
    exact isSpelled_number hnumber
  · split at h
    · rename_i hquote
      split at h
      · rename_i l' hl
        obtain rfl := Except.ok.inj h
        exact isSpelled_string? hquote hl
      · exact nomatch h
    · split at h
      · rename_i hstart
        obtain rfl := Except.ok.inj h
        exact isSpelled_word hstart
      · split at h
        · rename_i l' hl
          obtain rfl := Except.ok.inj h
          exact isSpelled_sign? hl
        · exact nomatch h

/-- What is not read is a quote that is never closed, or a character that starts no lexeme. -/
theorem read_eq_error {position : Nat} {e : QueryError} (h : read position c cs = .error e) :
    e = .unexpectedCharacter c position ∨
      e = .unterminatedString position ∧ (c = '\'' ∨ c = '"') ∧ c ∉ cs := by
  rw [read] at h
  split at h
  · exact nomatch h
  · split at h
    · rename_i hquote
      split at h
      · exact nomatch h
      · rename_i hl
        exact Or.inr ⟨(Except.error.inj h).symm, hquote, string?_eq_none hl⟩
    · split at h
      · exact nomatch h
      · split at h
        · exact nomatch h
        · exact Or.inl (Except.error.inj h).symm

end Lexeme

end DocQuery
