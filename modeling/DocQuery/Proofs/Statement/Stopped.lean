import DocQuery.Proofs.Statement.Exact
import DocQuery.Proofs.Token.Located

/-!
# Reading stops at the first wrong token

Where a statement is not read, the tokens before the one that is found can be gone on with, and
whatever follows that token, reading stops there (`follows_statement`). It is a token of the text,
since the end of the input is never taken (`exists_found`).

* `ofTokens_stops_at_first` — a syntax error names the first token with which no statement begins.
-/

namespace DocQuery

namespace Grammar

variable {ts : List Token}

-- ── Statements ──────────────────────────────────────────────────────────────

/-- A query up to the end of the input, with at most one semicolon in front of that. -/
inductive WritesBeforeEnd : List Token → Select → List Token → Prop where
  | plain {ts s rest} : WritesQuery ts s rest → WritesBeforeEnd ts s rest
  | semicolon {ts s sign rest} : WritesQuery ts s (sign :: rest) → sign.kind = .semicolon →
      WritesBeforeEnd ts s rest

/-- What has been read, if the input ends here. -/
def ended (s : Select) : Reader Select := fun ts =>
  if ts.head?.all (·.kind == .endOfInput) then .ok (s, ts) else .error ⟨.endOfInput, ts⟩

/-- A query up to the end of the input. -/
def statement : Reader Select := do
  let s ← reader query
  perhaps (·.kind == .semicolon) (fun _ => ended s) (ended s)

theorem ended_cons (s : Select) (t : Token) (ts : List Token) : ended s (t :: ts) =
    if t.kind = .endOfInput then .ok (s, t :: ts) else .error ⟨.endOfInput, t :: ts⟩ := by
  by_cases hkind : t.kind = .endOfInput
  · rw [if_pos hkind]
    exact if_pos (beq_iff_eq.mpr hkind)
  · rw [if_neg hkind]
    exact if_neg (mt beq_iff_eq.mp hkind)

/-- The reader of whole statements is the reader that stops, cut down to its tree. -/
theorem whole_eq (ts : List Token) : whole ts = (statement ts).map Prod.fst := by
  show _ = ((plain (query ts)) >>= _).map Prod.fst
  rw [whole]
  cases query ts with
  | error stop => rfl
  | ok q =>
      show (finish q.rest >>= fun _ => .ok q.value) =
        (perhaps (·.kind == .semicolon) (fun _ => ended q.value) (ended q.value) q.rest).map
          Prod.fst
      rw [finish]
      cases hsign : kind? .semicolon q.rest with
      | none =>
          rw [perhaps_none hsign]
          dsimp only
          cases q.rest with
          | nil => rfl
          | cons t rest =>
              rw [ended_cons]
              dsimp only
              split <;> rfl
      | some sign =>
          rw [perhaps_some hsign]
          dsimp only
          cases sign.rest with
          | nil => rfl
          | cons t rest =>
              rw [ended_cons]
              dsimp only
              split <;> rfl

/-- Before the end a statement needs nothing more. -/
theorem follows_ended {W : List Token → Select → List Token → Prop} {s : Select}
    (h : ∀ us, W us s us) (ts : List Token) : Follows W (ended s) ts := by
  by_cases hend : ts.head?.all (·.kind == .endOfInput) = true
  · refine .congr_head? ?_ (.pure h)
    intro us hus
    rw [ended, hus, if_pos hend]
    rfl
  · refine .stop .endOfInput ⟨[], s, h⟩ ?_
    intro us hus
    rw [ended, hus, if_neg hend]

/-- The reader of statements follows the grammar up to the end of the input. -/
theorem follows_statement (ts : List Token) : Follows WritesBeforeEnd statement ts := by
  rw [statement]
  refine .bind (follows_query ts) (fun front s hs => ⟨[], s, fun us => .plain (hs us)⟩) ?_
  intro front s rest _ hs
  refine .perhaps ?_ (follows_ended (fun us => .plain (hs us)) rest)
  intro sign us _ hsign
  exact follows_ended (fun us => .semicolon (hs _) (beq_iff_eq.mp hsign)) us

/-- A statement leaves an end of what it was read from. -/
theorem WritesBeforeEnd.consumes {s : Select} {rest : List Token}
    (h : WritesBeforeEnd ts s rest) : Consumes ts rest := by
  cases h with
  | plain hquery => exact hquery.consumes
  | semicolon hquery hsign => exact hquery.consumes.trans (.of_kind hsign (by decide))

/-- With nothing but the end of the input behind it, it is what is read. -/
theorem WritesBeforeEnd.ofTokens_eq {s : Select} {last : Token}
    (h : WritesBeforeEnd ts s [last]) (hlast : last.kind = .endOfInput) :
    Select.ofTokens ts = .ok s := by
  cases h with
  | plain hquery => exact (WritesStatement.plain hquery hlast).ofTokens_eq
  | semicolon hquery hsign => exact (WritesStatement.semicolon hquery hsign hlast).ofTokens_eq

-- ── Where reading stops ─────────────────────────────────────────────────────

/-- Where a keyword is missing, the reader stops without having read anything. -/
theorem keyword_eq_error {word : String} (h : ∀ t ∈ ts.head?, t.isKeyword word = false) :
    keyword word ts = .error ⟨.keyword word, ts⟩ := by
  cases hword : keyword? word ts with
  | none => rw [keyword, hword]
  | some t =>
      obtain ⟨hts, hkeyword⟩ := keyword?_eq_some hword
      rw [h t.value (congrArg List.head? hts)] at hkeyword
      cases hkeyword

/-- No statement opens with anything but `SELECT`. -/
theorem statement_eq_error (h : ∀ t ∈ ts.head?, t.isKeyword "SELECT" = false) :
    statement ts = .error ⟨.keyword "SELECT", ts⟩ := by
  show (plain (query ts) >>= _) = _
  rw [query, keyword_eq_error h]
  rfl

/-- A refusal for an unexpected token is what reading would have said, too. -/
theorem stopped_of_refusal? {expected : Expectation} {found : Token}
    (h : Select.refusal? ts = some (.unexpectedToken expected found)) :
    (∀ t ∈ ts.head?, t.isKeyword "SELECT" = false) ∧
      ts.head?.getD (Select.endOf ts) = found := by
  cases ts with
  | nil => cases h
  | cons t ts =>
      change (if t.kind = .endOfInput then _ else if t.isKeyword "SELECT" = true then _ else
        if t.kind = .keyword ∨ t.kind = .identifier then
          if Token.writeCommands.contains (Text.upper t.text) = true then
            some (.writeNotSupported _)
          else some (.unsupportedCommand _)
        else some (Select.stopped _ _)) = _ at h
      by_cases hend : t.kind = .endOfInput
      · rw [if_pos hend] at h
        cases h
      by_cases hselect : t.isKeyword "SELECT" = true
      · rw [if_neg hend, if_pos hselect] at h
        cases h
      by_cases hcommand : t.kind = .keyword ∨ t.kind = .identifier
      · rw [if_neg hend, if_neg hselect, if_pos hcommand] at h
        split at h <;> cases h
      · rw [if_neg hend, if_neg hselect, if_neg hcommand] at h
        refine ⟨?_, (QueryError.unexpectedToken.inj (Option.some.inj h)).2⟩
        intro u hu
        rw [← Option.some.inj hu]
        exact Bool.eq_false_iff.mpr hselect

/-- A reported token is the one that the reader stopped in front of. -/
theorem exists_stop_of_ofTokens {expected : Expectation} {found : Token}
    (h : Select.ofTokens ts = .error (.unexpectedToken expected found)) :
    ∃ stop, statement ts = .error stop ∧ stop.rest.head?.getD (Select.endOf ts) = found := by
  rw [Select.ofTokens] at h
  cases hrefusal : Select.refusal? ts with
  | some e =>
      rw [hrefusal] at h
      obtain rfl := Except.error.inj h
      obtain ⟨hfirst, hfound⟩ := stopped_of_refusal? hrefusal
      exact ⟨_, statement_eq_error hfirst, hfound⟩
  | none =>
      rw [hrefusal] at h
      dsimp only at h
      rw [whole_eq] at h
      cases hread : statement ts with
      | ok q =>
          rw [hread] at h
          cases h
      | error stop =>
          rw [hread] at h
          exact ⟨stop, rfl, (QueryError.unexpectedToken.inj (Except.error.inj h)).2⟩

/-- Not all tokens of a text are taken before reading stops: the end of the input is left. -/
theorem exists_found {source : String} {front rest : List Token}
    (hts : Token.ofText source = .ok (front ++ rest))
    (hgo : Completable fun us => WritesBeforeEnd (front ++ us)) : ∃ t back, rest = t :: back := by
  cases rest with
  | cons t back => exact ⟨t, back, rfl⟩
  | nil =>
      obtain ⟨body, start, last, hbody, -⟩ := Token.exists_cut_of_ofText hts
      obtain ⟨more, s, hwrites⟩ := hgo
      obtain ⟨taken, htaken, hkinds⟩ := (hwrites []).consumes
      rw [List.append_nil] at hbody
      rw [List.append_nil, List.append_nil] at htaken
      refine absurd rfl (hkinds ⟨.endOfInput, "", start + last.length⟩ ?_)
      rw [← htaken, hbody]
      exact List.mem_append_left _ (List.mem_append_right _ List.mem_cons_self)

end Grammar

namespace Select

open Grammar

/-- **A syntax error is at the first wrong token.** The tokens before it are the beginning of some
    statement, and with it they are not. -/
theorem ofTokens_stops_at_first {source : String} {ts : List Token} {expected : Expectation}
    {found : Token} (hts : Token.ofText source = .ok ts)
    (h : ofTokens ts = .error (.unexpectedToken expected found)) :
    ∃ front back, ts = front ++ found :: back ∧
      (∃ more s, ofTokens (front ++ more) = .ok s) ∧
      ∀ more s, ofTokens (front ++ found :: more) ≠ .ok s := by
  obtain ⟨stop, hstop, hfound⟩ := exists_stop_of_ofTokens h
  obtain ⟨front, rfl, hgo, hsame⟩ := (follows_statement ts).stops stop hstop
  obtain ⟨t, back, hrest⟩ := exists_found hts hgo
  rw [hrest] at hfound hsame
  obtain rfl : t = found := hfound
  refine ⟨front, back, by rw [hrest], ?_, ?_⟩
  · obtain ⟨more, s, hwrites⟩ := hgo
    exact ⟨more ++ [⟨.endOfInput, "", 0⟩], s, (hwrites _).ofTokens_eq rfl⟩
  · intro more s hok
    have hwhole := whole_of_ofTokens hok
    rw [whole_eq, hsame (t :: more) rfl] at hwhole
    cases hwhole

/-- The tokens of `SELECT * FROM t WHERE (f(a, g(*) b`. -/
def sampleTokens : List Token :=
  [⟨.keyword, "SELECT", 0⟩, ⟨.star, "*", 7⟩, ⟨.keyword, "FROM", 9⟩, ⟨.identifier, "t", 14⟩,
   ⟨.keyword, "WHERE", 16⟩, ⟨.leftParen, "(", 22⟩, ⟨.identifier, "f", 23⟩, ⟨.leftParen, "(", 24⟩,
   ⟨.identifier, "a", 25⟩, ⟨.comma, ",", 26⟩, ⟨.identifier, "g", 28⟩, ⟨.leftParen, "(", 29⟩,
   ⟨.star, "*", 30⟩, ⟨.rightParen, ")", 31⟩, ⟨.identifier, "b", 33⟩, ⟨.endOfInput, "", 34⟩]

/-- A parenthesis that is missing behind an argument is found at the next name. -/
theorem ofTokens_stops_at_first_sample :
    Token.ofText "SELECT * FROM t WHERE (f(a, g(*) b" = .ok sampleTokens ∧
    ofTokens sampleTokens = .error (.unexpectedToken .rightParen ⟨.identifier, "b", 33⟩) ∧
    ∃ front back, sampleTokens = front ++ ⟨.identifier, "b", 33⟩ :: back ∧
      (∃ more s, ofTokens (front ++ more) = .ok s) ∧
      ∀ more s, ofTokens (front ++ ⟨.identifier, "b", 33⟩ :: more) ≠ .ok s := by
  have hts : Token.ofText "SELECT * FROM t WHERE (f(a, g(*) b" = .ok sampleTokens :=
    eq_ok_of_toOption (by decide +kernel)
  have herror : ofTokens sampleTokens =
      .error (.unexpectedToken .rightParen ⟨.identifier, "b", 33⟩) := by
    decide +kernel
  exact ⟨hts, herror, ofTokens_stops_at_first hts herror⟩

end Select

end DocQuery
