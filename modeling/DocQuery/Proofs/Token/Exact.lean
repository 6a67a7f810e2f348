import DocQuery.Proofs.Token.Located

/-!
# What is cut is read

The other direction of reading tokens. A blank starts no lexeme and goes on with none
(`continuesWord_of_isBlank`), so layout is skipped to its end (`skipLayout_append`); and what
spells a lexeme in front of a text is read as that lexeme (`exists_read`). By induction over
the cut, a text that is cut into tokens up to layout has these tokens (`Cut.tokensFrom_eq`).
-/

namespace DocQuery

variable {c : Char} {cs rest : List Char}

-- ── Classes of characters ───────────────────────────────────────────────────

namespace Text

/-- No code point is in a span of both lists. -/
def Span.apart (ss ts : List Span) : Bool :=
  ss.all fun s => ts.all fun t => Nat.blt s.last t.first || Nat.blt t.last s.first

/-- No number is covered by two lists of spans that are apart. -/
theorem Span.anyCovers_of_apart {ss ts : List Span} (h : Span.apart ss ts = true) {n : Nat}
    (hn : anyCovers ss n = true) : anyCovers ts n = false := by
  obtain ⟨s, hs, hsn⟩ := List.any_eq_true.mp hn
  refine List.any_eq_false.mpr ?_
  intro t ht htn
  have hst := List.all_eq_true.mp (List.all_eq_true.mp h s hs) t ht
  simp only [covers, Bool.and_eq_true, decide_eq_true_eq] at hsn htn
  simp only [Bool.or_eq_true, Nat.blt_eq] at hst
  omega

theorem blanks_apart : Span.apart blankSpans alphabeticSpans = true ∧
    Span.apart blankSpans numericSpans = true := by
  decide +kernel

/-- No ASCII blank continues a word, by evaluation. -/
theorem continuesWord_ascii_blank :
    ∀ n < 0x80, isBlank (Char.ofNat n) = true → continuesWord (Char.ofNat n) = false := by
  decide +kernel

/-- A blank is no part of a word. -/
theorem continuesWord_of_isBlank (h : isBlank c = true) : continuesWord c = false := by
  by_cases hascii : c.toNat < 0x80
  · rw [← Char.ofNat_toNat c] at h ⊢
    exact continuesWord_ascii_blank _ hascii h
  · have hletter : isLetter c = false := by
      rw [isLetter, if_neg hascii]
      exact Span.anyCovers_of_apart blanks_apart.1 h
    have hnumeral : isNumeral c = false := by
      rw [isNumeral, if_neg hascii]
      exact Span.anyCovers_of_apart blanks_apart.2 h
    have hunderscore : c ≠ '_' := by
      rintro rfl
      exact absurd h (by decide)
    rw [continuesWord, hletter, hnumeral, beq_false_of_ne hunderscore]
    rfl

/-- A digit continues a word. -/
theorem continuesWord_of_isDigit (h : c.isDigit = true) : continuesWord c = true := by
  have hascii : c.toNat < 0x80 := by
    simp only [Char.isDigit, Bool.and_eq_true, decide_eq_true_eq] at h
    have hle : c.toNat ≤ 57 := h.2
    omega
  have hnumeral : isNumeral c = true := by
    rw [isNumeral, if_pos hascii]
    exact h
  rw [continuesWord, hnumeral, Bool.or_true, Bool.true_or]

theorem continuesWord_of_startsWord (h : startsWord c = true) : continuesWord c = true := by
  rw [startsWord, Bool.or_eq_true] at h
  rw [continuesWord, Bool.or_assoc, Bool.or_eq_true]
  refine h.imp_right ?_
  intro hunderscore
  rw [hunderscore, Bool.or_true]

/-- A digit starts no word. -/
theorem startsWord_of_isDigit (h : c.isDigit = true) : startsWord c = false := by
  have hall : ∀ n < 0x80, (Char.ofNat n).isDigit = true → startsWord (Char.ofNat n) = false := by
    decide +kernel
  have hascii : c.toNat < 0x80 := by
    simp only [Char.isDigit, Bool.and_eq_true, decide_eq_true_eq] at h
    have hle : c.toNat ≤ 57 := h.2
    omega
  rw [← Char.ofNat_toNat c] at h ⊢
  exact hall _ hascii h

end Text

-- ── Taking characters of a class ────────────────────────────────────────────

/-- What is taken off the front ends where the rest stops. -/
theorem Stops.takeWhile_append {p : Char → Bool} (hrest : Stops p rest)
    (hcs : ∀ c ∈ cs, p c = true) : (cs ++ rest).takeWhile p = cs := by
  rw [List.takeWhile_append_of_pos hcs]
  cases rest with
  | nil => rw [List.takeWhile_nil, List.append_nil]
  | cons d rest =>
      rw [List.takeWhile_cons_of_neg (Bool.eq_false_iff.mp (stops_cons.mp hrest)),
        List.append_nil]

/-- What is left behind the front is the rest that stops it. -/
theorem Stops.dropWhile_append {p : Char → Bool} (hrest : Stops p rest)
    (hcs : ∀ c ∈ cs, p c = true) : (cs ++ rest).dropWhile p = rest := by
  rw [List.dropWhile_append_of_pos hcs]
  cases rest with
  | nil => rfl
  | cons d rest =>
      exact List.dropWhile_cons_of_neg (Bool.eq_false_iff.mp (stops_cons.mp hrest))

-- ── Lexemes ─────────────────────────────────────────────────────────────────

/-- The characters of signs start no layout, number, string or word. -/
theorem Token.chars_of_mem_signs {s : TokenKind × String × List Char} (hs : s ∈ signs) :
    ∀ d ∈ s.2.2, Text.isBlank d = false ∧ d ≠ '-' ∧ d.isDigit = false ∧
      ¬ (d = '\'' ∨ d = '"') ∧ Text.startsWord d = false := by
  have hall : ∀ s ∈ signs, s.2.2.all (fun d => !Text.isBlank d && d != '-' && !d.isDigit &&
      !(d == '\'' || d == '"') && !Text.startsWord d) = true := by decide
  intro d hd
  have hd := List.all_eq_true.mp (hall s hs) d hd
  simp only [Bool.and_eq_true, Bool.not_eq_true', bne_iff_ne] at hd
  obtain ⟨⟨⟨⟨hblank, hminus⟩, hdigit⟩, hquote⟩, hstart⟩ := hd
  refine ⟨hblank, hminus, hdigit, ?_, hstart⟩
  rintro (rfl | rfl) <;> exact absurd hquote (by decide)

namespace Lexeme

open Token

/-- A number is cut off up to where it ends. -/
theorem spanNumber_append_of_ends {ds fraction : List Char} (hds : ∀ d ∈ ds, d.isDigit = true)
    (hfraction : Fraction fraction) (hends : NumberEnds fraction rest) :
    spanNumber false (ds ++ (fraction ++ rest)) = (ds ++ fraction, rest) := by
  induction ds with
  | cons d ds ih =>
      obtain ⟨hd, hds⟩ := List.forall_mem_cons.mp hds
      rw [List.cons_append, spanNumber, if_pos hd, ih hds]
      rfl
  | nil =>
      cases hfraction with
      | none =>
          cases rest with
          | nil => rfl
          | cons c rest =>
              have hdigit := stops_cons.mp hends.noDigit
              have hpoint : ¬ (c = '.' ∧ false = false ∧ rest.head?.any Char.isDigit) := by
                rintro ⟨rfl, -, hhead⟩
                rw [stops_iff.mp (hends.noFraction rfl rest rfl)] at hhead
                exact Bool.false_ne_true hhead
              rw [List.nil_append, List.nil_append, spanNumber,
                if_neg (Bool.eq_false_iff.mp hdigit), if_neg hpoint]
              rfl
      | @digits ds hds =>
          have hhead : (ds ++ rest).head?.any Char.isDigit = true := by
            obtain ⟨d, ds', rfl⟩ := List.exists_cons_of_ne_nil hds.nonempty
            exact hds.digits d List.mem_cons_self
          rw [List.nil_append, List.nil_append, List.cons_append, spanNumber,
            if_neg (by decide), if_pos ⟨rfl, rfl, hhead⟩, spanNumber_true,
            hends.noDigit.takeWhile_append hds.digits, hends.noDigit.dropWhile_append hds.digits]

/-- A text is cut off at the first quote behind it. -/
theorem splitAtQuote?_append {quote : Char} {body : List Char} (h : quote ∉ body) :
    splitAtQuote? quote (body ++ quote :: rest) = some (body, rest) := by
  induction body with
  | nil => rw [List.nil_append, splitAtQuote?, if_pos rfl]
  | cons c body ih =>
      have hc : c ≠ quote := fun heq => h (heq ▸ List.mem_cons_self)
      rw [List.cons_append, splitAtQuote?, if_neg hc,
        ih fun hmem => h (List.mem_cons_of_mem _ hmem)]
      rfl

/-- The lexeme has a kind and a text, and takes these characters up to that rest. -/
structure Has (l : Lexeme cs) (kind : TokenKind) (text : String) (spelling rest : List Char) :
    Prop where
  kind : l.kind = kind
  text : l.text = text
  spelling : l.spelling = spelling
  rest : l.rest = rest

/-- A number is read in front of whatever does not go on with it. -/
theorem read_number {position : Nat} {fraction whole : List Char}
    (h : (c.isDigit || (c == '-' && (whole ++ (fraction ++ rest)).head?.any Char.isDigit)) = true)
    (hwhole : ∀ d ∈ whole, d.isDigit = true) (hfraction : Fraction fraction)
    (hends : NumberEnds fraction rest) :
    ∃ l, read position c (whole ++ (fraction ++ rest)) = .ok l ∧
      l.Has .number (String.ofList (c :: (whole ++ fraction))) (c :: (whole ++ fraction)) rest := by
  have hspan := spanNumber_append_of_ends hwhole hfraction hends
  have htaken := congrArg Prod.fst hspan
  exact ⟨number c _, if_pos h, rfl, congrArg (fun taken => String.ofList (c :: taken)) htaken,
    congrArg (c :: ·) htaken, congrArg Prod.snd hspan⟩

/-- A text between quotes is read in front of anything. -/
theorem read_string {position : Nat} {quote : Char} {body : List Char}
    (hquote : quote = '\'' ∨ quote = '"') (hbody : quote ∉ body) :
    ∃ l, read position quote (body ++ quote :: rest) = .ok l ∧
      l.Has .string (String.ofList body) (quote :: body ++ [quote]) rest := by
  have hnumber : ¬ (quote.isDigit || (quote == '-' &&
      (body ++ quote :: rest).head?.any Char.isDigit)) = true := by
    rcases hquote with rfl | rfl <;> simp
  have hsplit : splitAtQuote? quote (body ++ quote :: rest) = some (body, rest) :=
    splitAtQuote?_append hbody
  rw [read, if_neg hnumber, if_pos hquote]
  split
  · rename_i l hl
    refine ⟨l, rfl, ?_⟩
    unfold string? at hl
    split at hl
    · cases hl
    · rename_i body' rest' hsplit'
      rw [hsplit] at hsplit'
      obtain ⟨rfl, rfl⟩ := Prod.mk.inj (Option.some.inj hsplit')
      rw [← Option.some.inj hl]
      exact ⟨rfl, rfl, rfl, rfl⟩
  · rename_i hl
    exact absurd (List.mem_append_right _ List.mem_cons_self) (string?_eq_none hl)

/-- A word is read from its first letter on. -/
theorem read_word {position : Nat} (hc : Text.startsWord c = true) :
    read position c cs = .ok (word c cs) := by
  have hdigit : c.isDigit = false := by
    rw [← Bool.not_eq_true]
    intro hdigit
    rw [Text.startsWord_of_isDigit hdigit] at hc
    exact nomatch hc
  have hne : ∀ d, Text.startsWord d = false → c ≠ d := by
    rintro d hd rfl
    rw [hd] at hc
    exact nomatch hc
  have hnumber : ¬ (c.isDigit || (c == '-' && cs.head?.any Char.isDigit)) = true := by
    rw [hdigit, beq_false_of_ne (hne '-' (by decide))]
    exact Bool.false_ne_true
  have hquote : ¬ (c = '\'' ∨ c = '"') := by
    rintro (heq | heq)
    · exact hne '\'' (by decide) heq
    · exact hne '"' (by decide) heq
  rw [read, if_neg hnumber, if_neg hquote, if_pos hc]

/-- A word whose upper case is a keyword is read as this keyword. -/
theorem has_keyword {tail : List Char} (htail : ∀ d ∈ tail, Text.continuesWord d = true)
    (hrest : Stops Text.continuesWord rest)
    (hkey : Text.upper (String.ofList (c :: tail)) ∈ keywords) :
    (word c (tail ++ rest)).Has .keyword (Text.upper (String.ofList (c :: tail))) (c :: tail)
      rest := by
  refine ⟨?_, ?_, congrArg (c :: ·) (hrest.takeWhile_append htail),
    hrest.dropWhile_append htail⟩
  all_goals simp only [word, hrest.takeWhile_append htail]
  all_goals exact if_pos (List.contains_iff_mem.mpr hkey)

/-- A word whose upper case is no keyword is read as an identifier. -/
theorem has_identifier {tail : List Char} (htail : ∀ d ∈ tail, Text.continuesWord d = true)
    (hrest : Stops Text.continuesWord rest)
    (hkey : Text.upper (String.ofList (c :: tail)) ∉ keywords) :
    (word c (tail ++ rest)).Has .identifier (String.ofList (c :: tail)) (c :: tail) rest := by
  refine ⟨?_, ?_, congrArg (c :: ·) (hrest.takeWhile_append htail),
    hrest.dropWhile_append htail⟩
  all_goals simp only [word, hrest.takeWhile_append htail]
  all_goals exact if_neg fun h => hkey (List.contains_iff_mem.mp h)

/-- A sign is read if no longer one is written. -/
theorem read_sign {position : Nat} {kind : TokenKind} {text : String}
    (hmem : (kind, text, c :: cs) ∈ signs)
    (hlonger : ∀ d ∈ rest.head?, ∀ s ∈ signs, s.2.2 ≠ c :: cs ++ [d]) :
    ∃ l, read position c (cs ++ rest) = .ok l ∧ l.Has kind text (c :: cs) rest := by
  have hread : ∀ l, sign? (c :: (cs ++ rest)) = some l →
      read position c (cs ++ rest) = .ok l := by
    intro l hl
    obtain ⟨-, hminus, hdigit, hquote, hstart⟩ := chars_of_mem_signs hmem c List.mem_cons_self
    rw [read, if_neg (by simp [hdigit, hminus]), if_neg hquote,
      if_neg (Bool.eq_false_iff.mp hstart), hl]
  simp only [signs, List.mem_cons, List.not_mem_nil, or_false, Prod.mk.injEq, List.cons.injEq]
    at hmem
  rcases hmem with h | h | h | h | h | h | h | h | h | h | h | h | h | h
  all_goals obtain ⟨rfl, rfl, rfl, rfl⟩ := h
  any_goals exact ⟨_, hread _ rfl, rfl, rfl, rfl, rfl⟩
  -- `<` and `>` are also the start of a longer sign
  · cases rest with
    | nil => exact ⟨_, hread _ rfl, rfl, rfl, rfl, rfl⟩
    | cons d rest =>
        have hequal : d ≠ '=' := fun h => hlonger d rfl (.operator, "<=", ['<', '=']) (by decide)
          (by rw [h]; rfl)
        have hmore : d ≠ '>' := fun h => hlonger d rfl (.operator, "!=", ['<', '>']) (by decide)
          (by rw [h]; rfl)
        refine ⟨one .operator '<' (d :: rest), hread _ ?_, rfl, rfl, rfl, rfl⟩
        simp [sign?, hequal, hmore]
  · cases rest with
    | nil => exact ⟨_, hread _ rfl, rfl, rfl, rfl, rfl⟩
    | cons d rest =>
        have hequal : d ≠ '=' := fun h => hlonger d rfl (.operator, ">=", ['>', '=']) (by decide)
          (by rw [h]; rfl)
        refine ⟨one .operator '>' (d :: rest), hread _ ?_, rfl, rfl, rfl, rfl⟩
        simp [sign?, hequal]

/-- What spells a lexeme in front of a text is read as that lexeme. -/
theorem exists_read (position : Nat) {kind : TokenKind} {text : String} {spelling : List Char}
    (h : Spelled kind text spelling rest) (hcs : spelling ++ rest = c :: cs) :
    ∃ l, read position c cs = .ok l ∧ l.Has kind text spelling rest := by
  cases h with
  | keyword hstart htail hrest hkey =>
      obtain ⟨rfl, rfl⟩ := List.cons.inj hcs
      exact ⟨_, read_word hstart, has_keyword htail hrest hkey⟩
  | identifier hstart htail hrest hkey =>
      obtain ⟨rfl, rfl⟩ := List.cons.inj hcs
      exact ⟨_, read_word hstart, has_identifier htail hrest hkey⟩
  | @number sign whole fraction _ hsign hwhole hfraction hends =>
      obtain ⟨d, ds, rfl⟩ := List.exists_cons_of_ne_nil hwhole.nonempty
      obtain ⟨hd, hds⟩ := List.forall_mem_cons.mp hwhole.digits
      rw [List.append_assoc, List.append_assoc] at hcs
      cases hsign with
      | none =>
          obtain ⟨rfl, rfl⟩ := List.cons.inj hcs
          exact read_number (by rw [hd]; rfl) hds hfraction hends
      | minus =>
          obtain ⟨rfl, rfl⟩ := List.cons.inj hcs
          exact read_number (c := '-') (by simp [hd]) hwhole.digits hfraction hends
  | string hquote hbody =>
      rw [List.append_assoc] at hcs
      obtain ⟨rfl, rfl⟩ := List.cons.inj hcs
      exact read_string hquote hbody
  | @sign _ _ spelling _ hmem hlonger =>
      obtain ⟨d, ds, rfl⟩ := List.exists_cons_of_ne_nil (Spelled.sign hmem hlonger).ne_nil
      obtain ⟨rfl, rfl⟩ := List.cons.inj hcs
      exact read_sign hmem hlonger

end Lexeme

namespace Token

variable {gap : List Char} {position : Nat}

-- ── Layout ──────────────────────────────────────────────────────────────────

/-- A comment is skipped with the end of its line. -/
theorem skipLayout_line {body : List Char} (h : '\n' ∉ body) :
    skipLayout true position (body ++ '\n' :: cs) =
      skipLayout false (position + body.length + 1) cs := by
  induction body generalizing position with
  | nil => rfl
  | cons c body ih =>
      rw [List.mem_cons, not_or] at h
      rw [List.cons_append, skipLayout, if_pos rfl, bne_iff_ne.mpr (Ne.symm h.1), ih h.2,
        List.length_cons]
      congr 1
      omega

/-- A comment may end with the text. -/
theorem skipLayout_lastLine {body : List Char} (h : '\n' ∉ body) :
    skipLayout true position body = (position + body.length, []) := by
  induction body generalizing position with
  | nil => rfl
  | cons c body ih =>
      rw [List.mem_cons, not_or] at h
      rw [skipLayout, if_pos rfl, bne_iff_ne.mpr (Ne.symm h.1), ih h.2, List.length_cons]
      congr 1
      omega

/-- Two dashes open a comment. -/
theorem skipLayout_dashes :
    skipLayout false position ('-' :: '-' :: cs) = skipLayout true (position + 2) cs := by
  rw [skipLayout, if_neg Bool.false_ne_true, if_neg (by decide), if_pos ⟨rfl, rfl⟩, skipLayout,
    if_pos rfl]
  rfl

/-- Layout is skipped, whatever comes after it. -/
theorem skipLayout_append (hgap : Layout gap) :
    skipLayout false position (gap ++ rest) =
      skipLayout false (position + gap.length) rest := by
  induction hgap generalizing position with
  | nil => rfl
  | blank hblank _ ih =>
      rw [List.cons_append, skipLayout, if_neg Bool.false_ne_true, if_pos hblank, ih,
        List.length_cons]
      congr 1
      omega
  | @comment body cs hbody _ ih =>
      rw [List.append_assoc, List.cons_append, List.cons_append, List.cons_append,
        skipLayout_dashes, skipLayout_line hbody, ih]
      simp only [List.length_cons, List.length_append]
      congr 1
      omega

/-- Layout at the end is skipped up to the end. -/
theorem skipLayout_last (h : LastLayout cs) :
    skipLayout false position cs = (position + cs.length, []) := by
  cases h with
  | layout h =>
      have hskip : skipLayout false position (cs ++ []) = (position + cs.length, []) :=
        skipLayout_append h
      rw [List.append_nil] at hskip
      exact hskip
  | comment h hbody =>
      rw [skipLayout_append h, skipLayout_dashes, skipLayout_lastLine hbody]
      simp only [List.length_cons, List.length_append]
      congr 1
      omega

/-- A lexeme starts with no blank, and only a number starts with a minus sign. -/
theorem Spelled.exists_cons {kind : TokenKind} {text : String}
    (h : Spelled kind text cs rest) : ∃ c tail, cs = c :: tail ∧ Text.isBlank c = false ∧
      (c = '-' → ∃ d digits, tail = d :: digits ∧ d.isDigit = true) := by
  have hword : ∀ c, Text.continuesWord c = true → Text.isBlank c = false := by
    intro c hc
    rw [← Bool.not_eq_true]
    intro hblank
    rw [Text.continuesWord_of_isBlank hblank] at hc
    exact nomatch hc
  cases h with
  | keyword hstart _ _ _ | identifier hstart _ _ _ =>
      refine ⟨_, _, rfl, hword _ (Text.continuesWord_of_startsWord hstart), ?_⟩
      rintro rfl
      exact absurd hstart (by decide)
  | @number sign whole fraction _ hsign hwhole _ _ =>
      obtain ⟨d, ds, rfl⟩ := List.exists_cons_of_ne_nil hwhole.nonempty
      have hd := hwhole.digits d List.mem_cons_self
      cases hsign with
      | none =>
          refine ⟨_, _, rfl, hword _ (Text.continuesWord_of_isDigit hd), ?_⟩
          rintro rfl
          exact absurd hd (by decide)
      | minus => exact ⟨_, _, rfl, by decide, fun _ => ⟨d, _, rfl, hd⟩⟩
  | string hquote _ =>
      refine ⟨_, _, rfl, ?_, ?_⟩
      · rcases hquote with rfl | rfl <;> decide
      · rintro rfl
        exact absurd hquote (by decide)
  | sign hmem hlonger =>
      obtain ⟨c, tail, rfl⟩ := List.exists_cons_of_ne_nil (Spelled.sign hmem hlonger).ne_nil
      obtain ⟨hblank, hdash, -⟩ := chars_of_mem_signs hmem c List.mem_cons_self
      exact ⟨c, tail, rfl, hblank, fun h => absurd h hdash⟩

/-- No lexeme begins as layout does. -/
theorem Spelled.skipLayout_eq {kind : TokenKind} {text : String}
    (h : Spelled kind text cs rest) :
    skipLayout false position (cs ++ rest) = (position, cs ++ rest) := by
  obtain ⟨c, tail, rfl, hblank, hminus⟩ := h.exists_cons
  rw [List.cons_append, skipLayout, if_neg Bool.false_ne_true,
    if_neg (Bool.eq_false_iff.mp hblank), if_neg]
  rintro ⟨hc, hdash⟩
  obtain ⟨d, digits, rfl, hd⟩ := hminus hc
  rw [Option.some.inj hdash] at hd
  exact absurd hd (by decide)

-- ── Texts that are cut ──────────────────────────────────────────────────────

/-- A text that is cut to its end has the tokens that it is cut into. -/
theorem Cut.tokensFrom_eq {start : Nat} {ts : List Token} (h : Cut position cs ts start rest)
    (hlast : LastLayout rest) :
    tokensFrom position cs = .ok (ts ++ [⟨.endOfInput, "", start + rest.length⟩]) := by
  induction h with
  | nil => exact tokensFrom_of_end (skipLayout_last hlast)
  | @token position start gap spelling after rest _ _ ts hgap hspelled _ ih =>
      obtain ⟨c, tail, rfl⟩ := List.exists_cons_of_ne_nil hspelled.ne_nil
      have hskip : skipLayout false position (gap ++ (c :: tail) ++ after) =
          (position + gap.length, c :: (tail ++ after)) := by
        rw [List.append_assoc, skipLayout_append hgap, hspelled.skipLayout_eq]
        rfl
      obtain ⟨l, hread, hl⟩ :=
        Lexeme.exists_read (position + gap.length) hspelled List.cons_append
      have hothers : tokensFrom (position + gap.length + l.spelling.length) l.rest =
          .ok (ts ++ [⟨.endOfInput, "", start + rest.length⟩]) := by
        rw [hl.spelling, hl.rest]
        exact ih hlast
      rw [tokensFrom_of_cons hskip, bind_eq_ok_iff]
      refine ⟨l, hread, bind_eq_ok_iff.mpr ⟨_, hothers, ?_⟩⟩
      rw [hl.kind, hl.text, (Lexeme.isSpelled_read hread).anchor, hl.spelling]
      rfl

end Token

end DocQuery
