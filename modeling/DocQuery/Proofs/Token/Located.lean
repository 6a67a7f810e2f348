import DocQuery.Proofs.Token.Lexeme

/-!
# Tokens locate their source text

A text begins with layout and lexemes in turn (`Cut`); behind them there is layout up to its end
(`LastLayout`), or a character that cannot be read (`Stuck`). These are the two outcomes of the
reading, and one induction over the text shows that there is no other (`outcome_tokensFrom`).
What the tokens' offsets say follows from the cut alone.

* `ofText_locates` — every token stands at its lexeme, the offsets increase, between the lexemes
  there is only layout, and an error points at the character that it is about;
* `notEqual_misplaced` — only `!=` in this spelling is placed one behind its lexeme's start.
-/

namespace DocQuery

namespace Token

variable {cs rest gap : List Char} {position : Nat}

-- ── Layout ──────────────────────────────────────────────────────────────────

/-- Blanks, and comments from `--` to the end of a line. -/
inductive Layout : List Char → Prop where
  | nil : Layout []
  | blank {c : Char} {cs : List Char} : Text.isBlank c = true → Layout cs → Layout (c :: cs)
  | comment {body cs : List Char} : '\n' ∉ body → Layout cs →
      Layout ('-' :: '-' :: body ++ '\n' :: cs)

/-- Layout at the end of a text, which also ends a comment. -/
inductive LastLayout : List Char → Prop where
  | layout {cs : List Char} : Layout cs → LastLayout cs
  | comment {cs body : List Char} : Layout cs → '\n' ∉ body →
      LastLayout (cs ++ '-' :: '-' :: body)

theorem LastLayout.blank {c : Char} (hc : Text.isBlank c = true) (h : LastLayout cs) :
    LastLayout (c :: cs) := by
  cases h with
  | layout h => exact .layout (.blank hc h)
  | comment h hbody => exact .comment (.blank hc h) hbody

theorem LastLayout.behind {body : List Char} (hbody : '\n' ∉ body) (h : LastLayout cs) :
    LastLayout ('-' :: '-' :: body ++ '\n' :: cs) := by
  cases h with
  | layout h => exact .layout (.comment hbody h)
  | @comment cs last h hlast =>
      have hmore := LastLayout.comment (.comment hbody h) hlast
      rw [List.append_assoc, List.cons_append] at hmore
      exact hmore

/-- A gap in front of the rest of a text. -/
structure Gap (gap rest : List Char) : Prop where
  last : LastLayout gap
  layout : rest ≠ [] → Layout gap

theorem Gap.blank {c : Char} (hc : Text.isBlank c = true) (h : Gap gap rest) :
    Gap (c :: gap) rest :=
  ⟨h.last.blank hc, fun hrest => .blank hc (h.layout hrest)⟩

theorem Gap.behind {body : List Char} (hbody : '\n' ∉ body) (h : Gap gap rest) :
    Gap ('-' :: '-' :: body ++ '\n' :: gap) rest :=
  ⟨h.last.behind hbody, fun hrest => .comment hbody (h.layout hrest)⟩

/-- Within a comment layout goes on behind the end of the line, if there is one. -/
theorem skipLayout_comment (position : Nat) (cs : List Char) : ∃ body, '\n' ∉ body ∧
    (cs = body ∧ skipLayout true position cs = (position + cs.length, []) ∨
      ∃ next, cs = body ++ '\n' :: next ∧
        skipLayout true position cs = skipLayout false (position + body.length + 1) next) := by
  induction cs generalizing position with
  | nil => exact ⟨[], List.not_mem_nil, Or.inl ⟨rfl, rfl⟩⟩
  | cons c cs ih =>
      rw [skipLayout, if_pos rfl]
      by_cases hc : c = '\n'
      · rw [hc]
        exact ⟨[], List.not_mem_nil, Or.inr ⟨cs, rfl, rfl⟩⟩
      · rw [bne_iff_ne.mpr hc]
        obtain ⟨body, hbody, hcases⟩ := ih (position + 1)
        have hmem : '\n' ∉ c :: body := by
          intro hmem
          rcases List.mem_cons.mp hmem with heq | hmem
          · exact hc heq.symm
          · exact hbody hmem
        refine ⟨c :: body, hmem, ?_⟩
        rcases hcases with ⟨rfl, hskip⟩ | ⟨next, rfl, hskip⟩
        · refine Or.inl ⟨rfl, ?_⟩
          rw [hskip, List.length_cons]
          congr 1
          omega
        · refine Or.inr ⟨next, rfl, ?_⟩
          rw [hskip, List.length_cons]
          congr 1
          omega

/-- What is skipped is layout, and the position counts its characters. -/
theorem exists_gap {start : Nat} (h : skipLayout false position cs = (start, rest)) :
    ∃ gap, cs = gap ++ rest ∧ start = position + gap.length ∧ Gap gap rest := by
  -- a comment is skipped at once, so the text gets shorter by more than a character
  induction hn : cs.length using Nat.strongRecOn generalizing position cs with
  | ind n ih =>
      subst hn
      cases cs with
      | nil =>
          obtain ⟨rfl, rfl⟩ := Prod.mk.inj h
          exact ⟨[], rfl, rfl, .layout .nil, fun _ => .nil⟩
      | cons c cs =>
          rw [skipLayout, if_neg Bool.false_ne_true] at h
          split at h
          · rename_i hblank
            obtain ⟨gap, rfl, rfl, hgap⟩ := ih cs.length (Nat.lt_succ_self _) h rfl
            refine ⟨c :: gap, rfl, ?_, hgap.blank hblank⟩
            rw [List.length_cons]
            omega
          · split at h
            · rename_i hcomment
              obtain ⟨rfl, hnext⟩ := hcomment
              obtain ⟨cs, rfl⟩ := List.head?_eq_some_iff.mp hnext
              rw [skipLayout, if_pos rfl, bne_iff_ne.mpr (by decide : '-' ≠ '\n')] at h
              obtain ⟨body, hbody, ⟨rfl, hskip⟩ | ⟨next, rfl, hskip⟩⟩ :=
                skipLayout_comment (position + 1 + 1) cs
              · rw [hskip] at h
                obtain ⟨rfl, rfl⟩ := Prod.mk.inj h
                refine ⟨'-' :: '-' :: cs, (List.append_nil _).symm, ?_, .comment .nil hbody,
                  fun h => absurd rfl h⟩
                simp only [List.length_cons]
                omega
              · rw [hskip] at h
                have hlt : next.length < ('-' :: '-' :: (body ++ '\n' :: next)).length := by
                  simp only [List.length_cons, List.length_append]
                  omega
                obtain ⟨gap, rfl, rfl, hgap⟩ := ih next.length hlt h rfl
                refine ⟨'-' :: '-' :: body ++ '\n' :: gap, ?_, ?_, hgap.behind hbody⟩
                · simp only [List.cons_append, List.append_assoc]
                · simp only [List.length_cons, List.length_append]
                  omega
            · obtain ⟨rfl, rfl⟩ := Prod.mk.inj h
              exact ⟨[], rfl, rfl, .layout .nil, fun _ => .nil⟩

-- ── Texts that are cut ──────────────────────────────────────────────────────

/-- A text that starts at a position begins with layout and lexemes in turn: it is cut into
    these tokens up to the rest, which starts where the last lexeme ends. -/
inductive Cut : Nat → List Char → List Token → Nat → List Char → Prop where
  | nil {position : Nat} {rest : List Char} : Cut position rest [] position rest
  | token {position start : Nat} {gap cs after rest : List Char} {kind : TokenKind}
      {text : String} {ts : List Token} : Layout gap → Spelled kind text cs after →
      Cut (position + gap.length + cs.length) after ts start rest →
      Cut position (gap ++ cs ++ after)
        (⟨kind, text, position + gap.length + anchorOf cs⟩ :: ts) start rest

/-- The text that starts at a position cannot be read behind its layout, and the error says
    which character it is: one that is not expected, or a quote that nothing closes. -/
inductive Stuck : Nat → List Char → QueryError → Prop where
  | unexpected {position : Nat} {gap rest : List Char} {c : Char} : Layout gap →
      Stuck position (gap ++ c :: rest) (.unexpectedCharacter c (position + gap.length))
  | unterminated {position : Nat} {gap rest : List Char} {quote : Char} : Layout gap →
      quote = '\'' ∨ quote = '"' → quote ∉ rest →
      Stuck position (gap ++ quote :: rest) (.unterminatedString (position + gap.length))

/-- What the reading of a text gives: it is cut to its end, or up to where it is stuck. -/
inductive Outcome (position : Nat) (cs : List Char) : Except QueryError (List Token) → Prop where
  | done {ts : List Token} {start : Nat} {rest : List Char} : Cut position cs ts start rest →
      LastLayout rest →
      Outcome position cs (.ok (ts ++ [⟨.endOfInput, "", start + rest.length⟩]))
  | stuck {ts : List Token} {start : Nat} {rest : List Char} {e : QueryError} :
      Cut position cs ts start rest → Stuck start rest e → Outcome position cs (.error e)

/-- At the end there is only the token that says so. -/
theorem tokensFrom_of_end {start : Nat} (h : skipLayout false position cs = (start, [])) :
    tokensFrom position cs = .ok [⟨.endOfInput, "", start⟩] := by
  rw [tokensFrom]
  split
  · rename_i hskip
    rw [h] at hskip
    rw [(Prod.mk.inj hskip).1]
  · rename_i hskip
    rw [h] at hskip
    cases hskip

/-- Where there is a character, one lexeme is read and then the others. -/
theorem tokensFrom_of_cons {start : Nat} {c : Char}
    (h : skipLayout false position cs = (start, c :: rest)) :
    tokensFrom position cs = (do
      let l ← Lexeme.read start c rest
      let others ← tokensFrom (start + l.spelling.length) l.rest
      .ok (⟨l.kind, l.text, start + l.anchor⟩ :: others)) := by
  rw [tokensFrom]
  split
  · rename_i hskip
    rw [h] at hskip
    cases hskip
  · rename_i hskip
    rw [h] at hskip
    obtain ⟨rfl, hcons⟩ := Prod.mk.inj hskip
    obtain ⟨rfl, rfl⟩ := List.cons.inj hcons
    rfl

/-- A character that is not read is where the text is stuck. -/
theorem stuck_of_read {c : Char} {e : QueryError} (hgap : Layout gap)
    (h : Lexeme.read (position + gap.length) c rest = .error e) :
    Stuck position (gap ++ c :: rest) e := by
  rcases Lexeme.read_eq_error h with rfl | ⟨rfl, hquote, hclosed⟩
  · exact .unexpected hgap
  · exact .unterminated hgap hquote hclosed

/-- What the reading gives stays so behind one more lexeme. -/
theorem Outcome.behind {after : List Char} {kind : TokenKind} {text : String}
    {r : Except QueryError (List Token)} (hgap : Layout gap)
    (hspelled : Spelled kind text cs after)
    (h : Outcome (position + gap.length + cs.length) after r) :
    Outcome position (gap ++ cs ++ after) (do
      let others ← r
      .ok (⟨kind, text, position + gap.length + anchorOf cs⟩ :: others)) := by
  cases h with
  | done hcut hlast => exact .done (.token hgap hspelled hcut) hlast
  | stuck hcut hstuck => exact .stuck (.token hgap hspelled hcut) hstuck

/-- The lexer cuts a text up or is stuck, by induction on the text. -/
theorem outcome_tokensFrom (position : Nat) (cs : List Char) :
    Outcome position cs (tokensFrom position cs) := by
  induction position, cs using tokensFrom.induct with
  | case1 position cs start hskip =>
      obtain ⟨gap, hcs, rfl, hgap⟩ := exists_gap hskip
      rw [tokensFrom_of_end hskip, hcs, List.append_nil]
      exact .done .nil hgap.last
  | case2 position cs start c rest hskip ih =>
      obtain ⟨gap, hcs, rfl, hgap⟩ := exists_gap hskip
      have hlayout := hgap.layout (List.cons_ne_nil c rest)
      rw [tokensFrom_of_cons hskip, hcs]
      cases hread : Lexeme.read (position + gap.length) c rest with
      | error e => exact .stuck .nil (stuck_of_read hlayout hread)
      | ok l =>
          have hl := Lexeme.isSpelled_read hread
          have hbehind := Outcome.behind hlayout hl.spelled (ih l)
          rw [List.append_assoc, l.spelled, ← hl.anchor] at hbehind
          exact hbehind

/-- The tokens of a text are cut out of it, but for the last one. -/
theorem exists_cut_of_ofText {source : String} {ts : List Token} (h : ofText source = .ok ts) :
    ∃ front start rest, ts = front ++ [⟨.endOfInput, "", start + rest.length⟩] ∧
      Cut 0 source.toList front start rest ∧ LastLayout rest := by
  have houtcome := outcome_tokensFrom 0 source.toList
  rw [show tokensFrom 0 source.toList = .ok ts from h] at houtcome
  cases houtcome with
  | done hcut hlast => exact ⟨_, _, _, rfl, hcut, hlast⟩

-- ── What a cut says ─────────────────────────────────────────────────────────

section Cut

variable {start : Nat} {ts : List Token}

/-- A cut leaves an end of the text. -/
theorem Cut.exists_before (h : Cut position cs ts start rest) :
    ∃ before, cs = before ++ rest ∧ start = position + before.length := by
  induction h with
  | nil => exact ⟨[], rfl, rfl⟩
  | @token position _ gap spelling _ _ _ _ _ _ _ _ ih =>
      obtain ⟨before, hcs, hstart⟩ := ih
      refine ⟨gap ++ spelling ++ before, ?_, ?_⟩
      · rw [hcs, List.append_assoc _ before]
      · rw [hstart]
        simp only [List.length_append]
        omega

/-- Every token stands at its lexeme. -/
theorem Cut.exists_lexeme (h : Cut position cs ts start rest) {t : Token} (ht : t ∈ ts) :
    ∃ before spelling after, cs = before ++ spelling ++ after ∧
      Spelled t.kind t.text spelling after ∧
      t.offset = position + before.length + anchorOf spelling := by
  induction h with
  | nil => exact absurd ht List.not_mem_nil
  | @token position _ gap spelling after _ _ _ _ _ hspelled _ ih =>
      rcases List.mem_cons.mp ht with rfl | ht
      · exact ⟨gap, spelling, after, rfl, hspelled, rfl⟩
      · obtain ⟨before, later, more, hafter, hlater, hoffset⟩ := ih ht
        refine ⟨gap ++ spelling ++ before, later, more, ?_, hlater, ?_⟩
        · rw [hafter]
          simp only [List.append_assoc]
        · rw [hoffset]
          simp only [List.length_append]
          omega

/-- No token is placed in front of its cut. -/
theorem Cut.le_offset (h : Cut position cs ts start rest) {t : Token} (ht : t ∈ ts) :
    position ≤ t.offset := by
  obtain ⟨before, spelling, after, -, -, hoffset⟩ := h.exists_lexeme ht
  omega

/-- No token is placed behind its cut. -/
theorem Cut.offset_lt (h : Cut position cs ts start rest) {t : Token} (ht : t ∈ ts) :
    t.offset < start := by
  induction h with
  | nil => exact absurd ht List.not_mem_nil
  | token _ hspelled hcut ih =>
      rcases List.mem_cons.mp ht with rfl | ht
      · obtain ⟨before, -, hstart⟩ := hcut.exists_before
        have hanchor := anchorOf_lt hspelled
        simp only
        omega
      · exact ih ht

/-- A token is placed within its lexeme, so the next one is behind it. -/
theorem Cut.pairwise_offset (h : Cut position cs ts start rest) :
    ts.Pairwise fun t u => t.offset < u.offset := by
  induction h with
  | nil => exact .nil
  | token _ hspelled hcut ih =>
      refine List.pairwise_cons.mpr ⟨?_, ih⟩
      intro u hu
      have hanchor := anchorOf_lt hspelled
      have hle := hcut.le_offset hu
      simp only
      omega

end Cut

-- ── The tokens of a query ───────────────────────────────────────────────────

/-- The lexer is stuck at one character of the text. -/
theorem Stuck.exists_char {e : QueryError} (h : Stuck position cs e) :
    ∃ before c after, cs = before ++ c :: after ∧
      (e = .unexpectedCharacter c (position + before.length) ∨
        e = .unterminatedString (position + before.length) ∧ (c = '\'' ∨ c = '"') ∧
          c ∉ after) := by
  cases h with
  | unexpected _ => exact ⟨_, _, _, rfl, Or.inl rfl⟩
  | unterminated _ hquote hclosed => exact ⟨_, _, _, rfl, Or.inr ⟨rfl, hquote, hclosed⟩⟩

/-- **Tokens and errors are where they were read.** The tokens of a text are its lexemes in order,
    each at its place, and its end; a text that has no tokens fails at the character that is not
    read. -/
theorem ofText_locates (source : String) :
    (∀ ts, ofText source = .ok ts → ∃ front start rest,
      ts = front ++ [⟨.endOfInput, "", source.toList.length⟩] ∧
      (∀ t ∈ front, t.kind ≠ .endOfInput) ∧
      (ts.Pairwise fun t u => t.offset < u.offset) ∧
      (∀ t ∈ front, ∃ before spelling after, source.toList = before ++ spelling ++ after ∧
        Spelled t.kind t.text spelling after ∧
        t.offset = before.length + anchorOf spelling) ∧
      Cut 0 source.toList front start rest ∧ LastLayout rest) ∧
    (∀ e, ofText source = .error e → ∃ ts start rest before c after,
      Cut 0 source.toList ts start rest ∧ Stuck start rest e ∧
      source.toList = before ++ c :: after ∧
      (e = .unexpectedCharacter c before.length ∨
        e = .unterminatedString before.length ∧ (c = '\'' ∨ c = '"') ∧ c ∉ after)) := by
  have houtcome := outcome_tokensFrom 0 source.toList
  constructor
  · intro ts hts
    have hread : tokensFrom 0 source.toList = .ok ts := hts
    rw [hread] at houtcome
    cases houtcome with
    | @done front start rest hcut hlast =>
        obtain ⟨before, hsource, hstart⟩ := hcut.exists_before
        have hend : start + rest.length = source.toList.length := by
          rw [hsource, List.length_append, hstart, Nat.zero_add]
        refine ⟨front, start, rest, by rw [hend], ?_, ?_, ?_, hcut, hlast⟩
        · intro t ht
          obtain ⟨_, _, _, _, hspelled, _⟩ := hcut.exists_lexeme ht
          exact hspelled.kind_ne
        · refine List.pairwise_append.mpr ⟨hcut.pairwise_offset, List.pairwise_singleton _ _, ?_⟩
          intro t ht u hu
          rw [List.mem_singleton.mp hu]
          exact Nat.lt_add_right _ (hcut.offset_lt ht)
        · intro t ht
          obtain ⟨before, spelling, after, hcs, hspelled, hoffset⟩ := hcut.exists_lexeme ht
          rw [Nat.zero_add] at hoffset
          exact ⟨before, spelling, after, hcs, hspelled, hoffset⟩
  · intro e he
    have hread : tokensFrom 0 source.toList = .error e := he
    rw [hread] at houtcome
    cases houtcome with
    | @stuck ts start rest _ hcut hstuck =>
        obtain ⟨front, hsource, hstart⟩ := hcut.exists_before
        obtain ⟨before, c, after, hrest, he⟩ := hstuck.exists_char
        refine ⟨ts, start, rest, front ++ before, c, after, hcut, hstuck, ?_, ?_⟩
        · rw [hsource, hrest, List.append_assoc]
        · rw [List.length_append]
          rw [hstart, Nat.zero_add] at he
          exact he

/-- A text with both quotes, a comment, a negative number and an operator of two characters. -/
theorem ofText_locates_sample :
    (∃ ts, ofText "SELECT 'it\"s' -- x\n, -1.5 <> a!=b" = .ok ts ∧ ∃ front start rest,
      ts = front ++ [⟨.endOfInput, "", 33⟩] ∧
      (∀ t ∈ front, t.kind ≠ .endOfInput) ∧
      (ts.Pairwise fun t u => t.offset < u.offset) ∧
      (∀ t ∈ front, ∃ before spelling after,
        "SELECT 'it\"s' -- x\n, -1.5 <> a!=b".toList = before ++ spelling ++ after ∧
        Spelled t.kind t.text spelling after ∧
        t.offset = before.length + anchorOf spelling) ∧
      Cut 0 "SELECT 'it\"s' -- x\n, -1.5 <> a!=b".toList front start rest ∧
      LastLayout rest) ∧
    ∃ e, ofText "a = 'b" = .error e ∧ ∃ ts start rest before c after,
      Cut 0 "a = 'b".toList ts start rest ∧ Stuck start rest e ∧
      "a = 'b".toList = before ++ c :: after ∧
      (e = .unexpectedCharacter c before.length ∨
        e = .unterminatedString before.length ∧ (c = '\'' ∨ c = '"') ∧ c ∉ after) := by
  constructor
  · obtain ⟨ts, hts⟩ := exists_eq_ok_of_isOk
      (x := ofText "SELECT 'it\"s' -- x\n, -1.5 <> a!=b") (by decide +kernel)
    obtain ⟨front, start, rest, hend, hlocated⟩ := (ofText_locates _).1 ts hts
    exact ⟨ts, hts, front, start, rest, hend, hlocated⟩
  · obtain ⟨e, he⟩ := exists_eq_error_of_isOk (x := ofText "a = 'b") (by decide +kernel)
    exact ⟨e, he, (ofText_locates _).2 e he⟩

/-- No lexeme of the token `!=` starts where the token is placed. -/
theorem notEqual_misplaced : ∃ ts, ofText "a != b" = .ok ts ∧ ∃ t ∈ ts,
    t.kind ≠ .endOfInput ∧ ¬ ∃ before spelling after,
      "a != b".toList = before ++ spelling ++ after ∧ Spelled t.kind t.text spelling after ∧
      t.offset = before.length := by
  have hread : ofText "a != b" = .ok
      [⟨.identifier, "a", 0⟩, ⟨.operator, "!=", 3⟩, ⟨.identifier, "b", 5⟩,
        ⟨.endOfInput, "", 6⟩] := eq_ok_of_toOption (by decide +kernel)
  refine ⟨_, hread, ⟨.operator, "!=", 3⟩, by decide, by decide, ?_⟩
  rintro ⟨before, spelling, after, hsource, hspelled, hoffset⟩
  have hhead : spelling ++ after = ['=', ' ', 'b'] := by
    have hdrop := congrArg (List.drop 3) hsource
    rw [List.append_assoc, show 3 = before.length from hoffset, List.drop_left] at hdrop
    rw [← hdrop, ← show 3 = before.length from hoffset]
    decide
  cases hspelled with
  | sign hmem _ =>
      have hall : ∀ s ∈ signs, s.2.1 = "!=" → s.2.2 = ['!', '='] ∨ s.2.2 = ['<', '>'] := by
        decide
      rcases hall _ hmem rfl with rfl | rfl
      · exact nomatch (List.cons.inj hhead).1
      · exact nomatch (List.cons.inj hhead).1

end Token

end DocQuery
