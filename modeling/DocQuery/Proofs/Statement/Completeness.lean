import DocQuery.Proofs.Statement.Soundness

/-!
# What is written is read

The other direction: what the rules of the grammar derive is read, with that value and up to
that rest (`Takes`), as long as the tokens after it do not go on with it. A name must not be
followed by a point, a list not by a comma, a conjunction not by `AND`. Within a statement this
holds by itself, since what comes after a part begins with the word of a later clause or ends
the statement (`Ends`).
-/

namespace DocQuery

namespace Grammar

variable {α β : Type} {m n : Nat} {ts us rest : List Token}

-- ── Steps ───────────────────────────────────────────────────────────────────

/-- The value is read, and the rest is left. -/
def Takes (p : Parsed α n) (v : α) (rest : List Token) : Prop :=
  ∃ h, p = .ok ⟨v, rest, h⟩

/-- Nonterminals that are taken in turn are taken together. -/
theorem Takes.bind {x : Parsed α m} {f : Taken α Token m → Parsed β n} {v : α} {w : β}
    (hx : Takes x v us) (hf : ∀ h, Takes (f ⟨v, us, h⟩) w rest) : Takes (x >>= f) w rest := by
  obtain ⟨h, rfl⟩ := hx
  exact hf h

theorem next?_cons {test : Token → Bool} {t : Token} (h : test t = true) :
    next? test (t :: us) = some ⟨t, us, Nat.lt_succ_self _⟩ := by
  rw [next?, if_pos h]

theorem kind?_cons {k : TokenKind} {t : Token} (h : t.kind = k) :
    kind? k (t :: us) = some ⟨t, us, Nat.lt_succ_self _⟩ :=
  next?_cons (beq_iff_eq.mpr h)

theorem keyword?_cons {word : String} {t : Token} (h : t.isKeyword word = true) :
    keyword? word (t :: us) = some ⟨t, us, Nat.lt_succ_self _⟩ :=
  next?_cons h

/-- A token of another kind is not taken. -/
theorem kind?_eq_none {k k' : TokenKind} {t : Token} (h : t.kind = k') (hne : k' ≠ k) :
    kind? k (t :: us) = none := by
  rw [kind?, next?, h]
  exact if_neg fun hk => hne (beq_iff_eq.mp hk)

/-- Only a keyword is taken for one. -/
theorem keyword?_eq_none_of_kind {k : TokenKind} {t : Token} {word : String} (h : t.kind = k)
    (hne : k ≠ .keyword) : keyword? word (t :: us) = none := by
  rw [keyword?, next?]
  refine if_neg fun hword => ?_
  exact hne (h.symm.trans (Token.kind_of_isKeyword hword))

/-- Nor is another keyword. -/
theorem keyword?_eq_none {word word' : String} {t : Token} (h : t.isKeyword word' = true)
    (hne : word' ≠ word) : keyword? word (t :: us) = none := by
  rw [keyword?, next?]
  refine if_neg fun hword => ?_
  exact hne ((Token.text_of_isKeyword h).symm.trans (Token.text_of_isKeyword hword))

theorem takes_kind {k : TokenKind} {expected : Expectation} {t : Token} (h : t.kind = k) :
    Takes (kind k expected (t :: rest)) t.text rest := by
  rw [kind, kind?_cons h]
  exact ⟨_, rfl⟩

theorem takes_keyword {word : String} {t : Token} (h : t.isKeyword word = true) :
    Takes (keyword word (t :: rest)) t rest := by
  rw [keyword, keyword?_cons h]
  exact ⟨_, rfl⟩

/-- A name that is written is read. -/
theorem WritesName.takes {name : String} (h : WritesName ts name rest) :
    Takes (Grammar.identifier ts) name rest := by
  cases h with
  | identifier hkind => exact takes_kind hkind

/-- A name begins with no other kind of token. -/
theorem WritesName.kind?_eq_none {name : String} (h : WritesName ts name rest) {k : TokenKind}
    (hne : .identifier ≠ k) : kind? k ts = none := by
  cases h with
  | identifier hkind => exact Grammar.kind?_eq_none hkind hne

-- ── Lists and clauses ───────────────────────────────────────────────────────

/-- A list is read if its items are, each before what may follow an item, and if it is not
    followed by another separator. -/
theorem WritesList.takes {separator : (ts : List Token) → Option (Taken Token Token ts.length)}
    {separates : Token → Prop} {item : (ts : List Token) → Parsed α ts.length}
    {Item : List Token → α → List Token → Prop} {Follow : List Token → Prop}
    (hsep : ∀ t us, separates t → ∃ h, separator (t :: us) = some ⟨t, us, h⟩)
    (hfollow : ∀ t us, separates t → Follow (t :: us))
    (hitem : ∀ ts x rest, Item ts x rest → Follow rest → Takes (item ts) x rest) {xs : List α}
    (h : WritesList separates Item ts xs rest) (hrest : Follow rest)
    (hend : separator rest = none) : Takes (separated separator item ts) xs rest := by
  induction h with
  | one hx =>
      rw [separated]
      refine (hitem _ _ _ hx hrest).bind ?_
      intro _
      dsimp only
      rw [hend]
      exact ⟨_, rfl⟩
  | cons hx hs _ ih =>
      rw [separated]
      refine (hitem _ _ _ hx (hfollow _ _ hs)).bind ?_
      intro _
      obtain ⟨_, hsome⟩ := hsep _ _ hs
      dsimp only
      rw [hsome]
      refine (ih hrest hend).bind ?_
      intro _
      exact ⟨_, rfl⟩

/-- A list that is written is read, if no further separator follows it. -/
theorem WritesList.takes_list {item : (ts : List Token) → Parsed α ts.length}
    {Item : List Token → α → List Token → Prop} {Follow : List Token → Prop}
    (hfollow : ∀ (t : Token) us, t.kind = .comma → Follow (t :: us))
    (hitem : ∀ ts x rest, Item ts x rest → Follow rest → Takes (item ts) x rest) {xs : List α}
    (h : WritesList (·.kind = .comma) Item ts xs rest) (hrest : Follow rest)
    (hend : kind? .comma rest = none) : Takes (list item ts) xs rest :=
  h.takes (fun _ _ hs => ⟨_, kind?_cons hs⟩) hfollow hitem hrest hend

/-- A clause that is written is read; one that is left out, too, if its word does not follow. -/
theorem WritesClause.takes {word : String} {body : (ts : List Token) → Parsed α ts.length}
    {Body : List Token → α → List Token → Prop} {v : Option α}
    (h : WritesClause word Body ts v rest)
    (hbody : ∀ ts v, Body ts v rest → Takes (body ts) v rest)
    (hend : keyword? word rest = none) : Takes (clause? word body ts) v rest := by
  cases h with
  | absent =>
      rw [clause?, hend]
      exact ⟨_, rfl⟩
  | present hword hv =>
      rw [clause?, keyword?_cons hword]
      refine (hbody _ _ hv).bind ?_
      intro _
      exact ⟨_, rfl⟩

theorem WritesBy.takes {body : (ts : List Token) → Parsed α ts.length}
    {Body : List Token → α → List Token → Prop} {v : α} (h : WritesBy Body ts v rest)
    (hbody : ∀ ts, Body ts v rest → Takes (body ts) v rest) : Takes (afterBy body ts) v rest := by
  cases h with
  | word hword hv =>
      rw [afterBy]
      refine (takes_keyword hword).bind ?_
      intro _
      refine (hbody _ hv).bind ?_
      intro _
      exact ⟨_, rfl⟩

/-- A clause begins with its word or with what follows it. -/
theorem WritesClause.kind?_eq_none {word : String} {Body : List Token → α → List Token → Prop}
    {v : Option α} (h : WritesClause word Body ts v rest) {k : TokenKind} (hne : .keyword ≠ k)
    (hrest : kind? k rest = none) : kind? k ts = none := by
  cases h with
  | absent => exact hrest
  | present hword _ => exact Grammar.kind?_eq_none (Token.kind_of_isKeyword hword) hne

-- ── Names ───────────────────────────────────────────────────────────────────

theorem WritesColumnName.kind?_eq_none {table : Option String} {name : String}
    (h : WritesColumnName ts table name rest) {k : TokenKind} (hne : .identifier ≠ k) :
    kind? k ts = none := by
  cases h with
  | bare hname => exact hname.kind?_eq_none hne
  | qualified htable _ _ => exact htable.kind?_eq_none hne

/-- A name of a column is read whole, unless a dot follows. -/
theorem WritesColumnName.takes {table : Option String} {name : String}
    (h : WritesColumnName ts table name rest) (hdot : kind? .dot rest = none) :
    Takes (columnName ts) (table, name) rest := by
  rw [columnName]
  cases h with
  | bare hname =>
      refine hname.takes.bind ?_
      intro _
      dsimp only
      rw [hdot]
      exact ⟨_, rfl⟩
  | qualified htable hkind hname =>
      refine htable.takes.bind ?_
      intro _
      dsimp only
      rw [kind?_cons hkind]
      refine hname.takes.bind ?_
      intro _
      exact ⟨_, rfl⟩

/-- A table is read whole, unless a sign for a hint follows. -/
theorem WritesTable.takes {name : String} {hint : Option String}
    (h : WritesTable ts name hint rest) (hat : kind? .at rest = none) :
    Takes (table ts) (name, hint) rest := by
  rw [table]
  cases h with
  | bare hname =>
      refine hname.takes.bind ?_
      intro _
      dsimp only
      rw [hat]
      exact ⟨_, rfl⟩
  | hinted hname hkind hindex =>
      refine hname.takes.bind ?_
      intro _
      dsimp only
      rw [kind?_cons hkind]
      refine hindex.takes.bind ?_
      intro _
      exact ⟨_, rfl⟩

theorem WritesLabel.takes {label : Option String} (h : WritesLabel ts label rest)
    (has : keyword? "AS" rest = none) : Takes (label? ts) label rest :=
  WritesClause.takes h (fun _ _ => WritesName.takes) has

-- ── Calls ───────────────────────────────────────────────────────────────────

theorem WritesArgument.kind?_rightParen {arg : Argument} (h : WritesArgument ts arg rest) :
    kind? .rightParen ts = none := by
  cases h with
  | star hkind => exact kind?_eq_none hkind (by decide)
  | column hname => exact hname.kind?_eq_none (by decide)
  | tableStar htable _ _ => exact htable.kind?_eq_none (by decide)
  | call hname _ _ => exact hname.kind?_eq_none (by decide)

/-- An argument is followed by a comma or a closing parenthesis. -/
theorem WritesMoreArguments.kind?_eq_none {args : List Argument}
    (h : WritesMoreArguments ts args rest) {k : TokenKind} (hparen : .rightParen ≠ k)
    (hcomma : .comma ≠ k) : kind? k ts = none := by
  cases h with
  | close hkind => exact Grammar.kind?_eq_none hkind hparen
  | comma hkind _ _ => exact Grammar.kind?_eq_none hkind hcomma

mutual

/-- An argument is read whole, unless what follows could belong to it. The recursion is over
    nested calls. -/
theorem WritesArgument.takes {ts rest : List Token} {arg : Argument} :
    WritesArgument ts arg rest → kind? .leftParen rest = none → kind? .dot rest = none →
      Takes (argument ts) arg rest
  | .star hkind, _, _ => by
      rw [argument, kind?_cons hkind]
      exact ⟨_, rfl⟩
  | .column (.bare hname), hparen, hdot => by
      rw [argument, hname.kind?_eq_none (by decide)]
      refine hname.takes.bind ?_
      intro _
      dsimp only
      rw [hparen, hdot]
      exact ⟨_, rfl⟩
  | .column (.qualified htable hkind hname), _, _ => by
      rw [argument, htable.kind?_eq_none (by decide)]
      refine htable.takes.bind ?_
      intro _
      dsimp only
      rw [kind?_eq_none hkind (by decide), kind?_cons hkind]
      dsimp only
      rw [hname.kind?_eq_none (by decide)]
      refine hname.takes.bind ?_
      intro _
      exact ⟨_, rfl⟩
  | .tableStar htable hkind hstar, _, _ => by
      rw [argument, htable.kind?_eq_none (by decide)]
      refine htable.takes.bind ?_
      intro _
      dsimp only
      rw [kind?_eq_none hkind (by decide), kind?_cons hkind]
      dsimp only
      rw [kind?_cons hstar]
      exact ⟨_, rfl⟩
  | .call hname hkind hargs, _, _ => by
      rw [argument, hname.kind?_eq_none (by decide)]
      refine hname.takes.bind ?_
      intro _
      dsimp only
      rw [kind?_cons hkind]
      refine hargs.takes.bind ?_
      intro _
      exact ⟨_, rfl⟩

/-- Arguments are read up to their parenthesis, whatever follows. -/
theorem WritesArguments.takes {ts rest : List Token} {args : List Argument} :
    WritesArguments ts args rest → Takes (arguments ts) args rest
  | .none hkind => by
      rw [arguments, kind?_cons hkind]
      exact ⟨_, rfl⟩
  | .some harg hmore => by
      rw [arguments, harg.kind?_rightParen]
      refine (harg.takes (hmore.kind?_eq_none (by decide) (by decide))
        (hmore.kind?_eq_none (by decide) (by decide))).bind ?_
      intro _
      refine hmore.takes.bind ?_
      intro _
      exact ⟨_, rfl⟩

/-- The arguments behind a first one are read as they are written. -/
theorem WritesMoreArguments.takes {ts rest : List Token} {args : List Argument} :
    WritesMoreArguments ts args rest → Takes (moreArguments ts) args rest
  | .close hkind => by
      rw [moreArguments, Grammar.kind?_eq_none hkind (by decide)]
      refine (takes_kind hkind).bind ?_
      intro _
      exact ⟨_, rfl⟩
  | .comma hkind harg hmore => by
      rw [moreArguments, kind?_cons hkind]
      refine (harg.takes (hmore.kind?_eq_none (by decide) (by decide))
        (hmore.kind?_eq_none (by decide) (by decide))).bind ?_
      intro _
      refine hmore.takes.bind ?_
      intro _
      exact ⟨_, rfl⟩

end

-- ── Columns ─────────────────────────────────────────────────────────────────

/-- What may come after a column: nothing that goes on with a name or a label. -/
def EndsColumn (ts : List Token) : Prop :=
  kind? .leftParen ts = none ∧ kind? .dot ts = none ∧ keyword? "AS" ts = none

theorem endsColumn_cons {k : TokenKind} {t : Token} (h : t.kind = k)
    (hk : k ≠ .leftParen ∧ k ≠ .dot ∧ k ≠ .keyword) : EndsColumn (t :: us) :=
  ⟨kind?_eq_none h hk.1, kind?_eq_none h hk.2.1, keyword?_eq_none_of_kind h hk.2.2⟩

/-- A column is read whole, unless what follows could belong to it. -/
theorem WritesColumn.takes {c : Column} (h : WritesColumn ts c rest) (hrest : EndsColumn rest) :
    Takes (column ts) c rest := by
  obtain ⟨hparen, hdot, has⟩ := hrest
  rw [column]
  cases h with
  | field hname hlabel =>
      cases hname with
      | bare hname =>
          refine hname.takes.bind ?_
          intro _
          dsimp only
          rw [hlabel.kind?_eq_none (by decide) hparen, hlabel.kind?_eq_none (by decide) hdot]
          refine (WritesLabel.takes hlabel has).bind ?_
          intro _
          exact ⟨_, rfl⟩
      | qualified htable hkind hname =>
          refine htable.takes.bind ?_
          intro _
          dsimp only
          rw [kind?_eq_none hkind (by decide), kind?_cons hkind]
          dsimp only
          rw [hname.kind?_eq_none (by decide)]
          refine hname.takes.bind ?_
          intro _
          refine (WritesLabel.takes hlabel has).bind ?_
          intro _
          exact ⟨_, rfl⟩
  | tableStar htable hkind hstar =>
      refine htable.takes.bind ?_
      intro _
      dsimp only
      rw [kind?_eq_none hkind (by decide), kind?_cons hkind]
      dsimp only
      rw [kind?_cons hstar]
      exact ⟨_, rfl⟩
  | call hcall hlabel =>
      cases hcall with
      | call hname hkind hargs =>
          refine hname.takes.bind ?_
          intro _
          dsimp only
          rw [kind?_cons hkind]
          refine hargs.takes.bind ?_
          intro _
          refine (WritesLabel.takes hlabel has).bind ?_
          intro _
          exact ⟨_, rfl⟩

/-- No column of a list begins with a star. -/
theorem WritesColumn.kind?_star {c : Column} (h : WritesColumn ts c rest) :
    kind? .star ts = none := by
  cases h with
  | field hname _ => exact hname.kind?_eq_none (by decide)
  | tableStar htable _ _ => exact htable.kind?_eq_none (by decide)
  | call hcall _ =>
      cases hcall with
      | call hname _ _ => exact hname.kind?_eq_none (by decide)

/-- The columns are read whole, unless a comma follows. -/
theorem WritesColumns.takes {cs : List Column} (h : WritesColumns ts cs rest)
    (hrest : EndsColumn rest) (hcomma : kind? .comma rest = none) :
    Takes (columns ts) cs rest := by
  rw [columns]
  cases h with
  | star hkind =>
      rw [kind?_cons hkind]
      exact ⟨_, rfl⟩
  | list hlist =>
      have hstar : kind? .star ts = none := by
        cases hlist with
        | one hcolumn => exact hcolumn.kind?_star
        | cons hcolumn _ _ => exact hcolumn.kind?_star
      rw [hstar]
      exact hlist.takes_list (fun _ _ hs => endsColumn_cons hs (by decide))
        (fun _ _ _ => WritesColumn.takes) hrest hcomma

-- ── Joins ───────────────────────────────────────────────────────────────────

/-- A qualified name is read as such. -/
theorem WritesColumnName.takes_qualifiedName {table name : String}
    (h : WritesColumnName ts (some table) name rest) :
    Takes (qualifiedName ts) (table, name) rest := by
  rw [qualifiedName]
  cases h with
  | qualified htable hkind hname =>
      refine htable.takes.bind ?_
      intro _
      refine (takes_kind hkind).bind ?_
      intro _
      refine hname.takes.bind ?_
      intro _
      exact ⟨_, rfl⟩

theorem next?_equals {t : Token} (hkind : t.kind = .operator) (htext : t.text = "=") :
    next? (fun t => t.kind == .operator && t.text == "=") (t :: us)
      = some ⟨t, us, Nat.lt_succ_self _⟩ := by
  refine next?_cons ?_
  rw [hkind, htext]
  rfl

/-- An equality is read, whatever follows. -/
theorem WritesEquality.takes {c : JoinCondition} (h : WritesEquality ts c rest) :
    Takes (equality ts) c rest := by
  rw [equality]
  cases h with
  | equals hleft hkind htext hright =>
      refine hleft.takes_qualifiedName.bind ?_
      intro _
      dsimp only
      rw [next?_equals hkind htext]
      refine hright.takes_qualifiedName.bind ?_
      intro _
      exact ⟨_, rfl⟩

/-- The words that open a join are seen. -/
theorem WritesJoinWords.joinWords?_eq (h : WritesJoinWords ts rest) :
    ∃ word h, joinWords? ts = .ok (some ⟨word, rest, h⟩) := by
  rw [joinWords?]
  cases h with
  | join hjoin =>
      rw [keyword?_eq_none hjoin (by decide), keyword?_cons hjoin]
      exact ⟨_, _, rfl⟩
  | inner hinner hjoin =>
      rw [keyword?_cons hinner]
      dsimp only
      obtain ⟨_, hword⟩ := takes_keyword hjoin
      rw [hword]
      exact ⟨_, _, rfl⟩

/-- A join is read whole, unless `AND` follows. -/
theorem takes_join {table : String} {hint : Option String} {word : Token}
    {conditions : List JoinCondition} (htable : WritesTable ts table hint (word :: us))
    (hon : word.isKeyword "ON" = true)
    (hconditions : WritesList (·.isKeyword "AND" = true) WritesEquality us conditions rest)
    (hand : keyword? "AND" rest = none) :
    Takes (join ts) ⟨table, hint, conditions⟩ rest := by
  rw [join]
  refine (htable.takes (kind?_eq_none (Token.kind_of_isKeyword hon) (by decide))).bind ?_
  intro _
  refine (takes_keyword hon).bind ?_
  intro _
  have hitem : ∀ (ts : List Token) (c : JoinCondition) (rest : List Token),
      WritesEquality ts c rest → True → Takes (equality ts) c rest := fun _ _ _ hc _ => hc.takes
  have hlist : Takes (separated (keyword? "AND") equality us) conditions rest :=
    hconditions.takes (fun _ _ hs => ⟨_, keyword?_cons hs⟩) (fun _ _ _ => trivial) hitem trivial
      hand
  refine hlist.bind ?_
  intro _
  exact ⟨_, rfl⟩

/-- Joined tables begin with one of their words or with what follows them. -/
theorem WritesJoins.keyword?_eq_none {js : List Join} (h : WritesJoins ts js rest) {word : String}
    (hjoin : "JOIN" ≠ word) (hinner : "INNER" ≠ word) (hrest : keyword? word rest = none) :
    keyword? word ts = none := by
  cases h with
  | nil => exact hrest
  | cons hfirst _ =>
      cases hfirst with
      | join hwords _ _ _ =>
          cases hwords with
          | join hword => exact Grammar.keyword?_eq_none hword hjoin
          | inner hword _ => exact Grammar.keyword?_eq_none hword hinner

theorem WritesJoins.kind?_eq_none {js : List Join} (h : WritesJoins ts js rest) {k : TokenKind}
    (hne : .keyword ≠ k) (hrest : kind? k rest = none) : kind? k ts = none := by
  cases h with
  | nil => exact hrest
  | cons hfirst _ =>
      cases hfirst with
      | join hwords _ _ _ =>
          cases hwords with
          | join hword => exact Grammar.kind?_eq_none (Token.kind_of_isKeyword hword) hne
          | inner hword _ => exact Grammar.kind?_eq_none (Token.kind_of_isKeyword hword) hne

/-- The joins are read whole, unless the words of another one follow. -/
theorem WritesJoins.takes {js : List Join} (h : WritesJoins ts js rest)
    (hinner : keyword? "INNER" rest = none) (hjoin : keyword? "JOIN" rest = none)
    (hand : keyword? "AND" rest = none) : Takes (joins ts) js rest := by
  induction h with
  | nil =>
      rw [joins, joinWords?, hinner, hjoin]
      exact ⟨_, rfl⟩
  | cons hfirst hothers ih =>
      cases hfirst with
      | join hwords htable hon hconditions =>
          obtain ⟨_, _, hwords⟩ := hwords.joinWords?_eq
          rw [joins, hwords]
          have hfirst := takes_join htable hon hconditions
            (hothers.keyword?_eq_none (by decide) (by decide) hand)
          refine Takes.bind hfirst ?_
          intro _
          refine (ih hinner hjoin hand).bind ?_
          intro _
          exact ⟨_, rfl⟩

-- ── Conditions ──────────────────────────────────────────────────────────────

/-- A subject is read whole, unless what follows could belong to it. -/
theorem WritesSubject.takes {s : Subject} (h : WritesSubject ts s rest)
    (hparen : kind? .leftParen rest = none) (hdot : kind? .dot rest = none) :
    Takes (subject ts) s rest := by
  rw [subject]
  cases h with
  | column hname =>
      cases hname with
      | bare hname =>
          refine hname.takes.bind ?_
          intro _
          dsimp only
          rw [hparen, hdot]
          exact ⟨_, rfl⟩
      | qualified htable hkind hname =>
          refine htable.takes.bind ?_
          intro _
          dsimp only
          rw [kind?_eq_none hkind (by decide), kind?_cons hkind]
          refine hname.takes.bind ?_
          intro _
          exact ⟨_, rfl⟩
  | call hcall =>
      cases hcall with
      | call hname hkind hargs =>
          refine hname.takes.bind ?_
          intro _
          dsimp only
          rw [kind?_cons hkind]
          refine hargs.takes.bind ?_
          intro _
          exact ⟨_, rfl⟩

/-- No subject begins with a parenthesis, so it is not taken for a condition in one. -/
theorem WritesSubject.kind?_leftParen {s : Subject} (h : WritesSubject ts s rest) :
    kind? .leftParen ts = none := by
  cases h with
  | column hname => exact hname.kind?_eq_none (by decide)
  | call hcall =>
      cases hcall with
      | call hname _ _ => exact hname.kind?_eq_none (by decide)

theorem takes_operator {sign : Token} {op : Operator} (hkind : sign.kind = .operator)
    (hop : Operator.ofSymbol? sign.text = some op) : Takes (operator (sign :: rest)) op rest := by
  rw [operator, kind?_cons hkind]
  dsimp only
  rw [hop]
  exact ⟨_, rfl⟩

/-- A literal is read by its value. -/
theorem WritesLiteral.takes {t : Token} {value : Value} (h : WritesLiteral t value) :
    Takes (literal (t :: rest)) value rest := by
  rw [literal, literalOf_eq_ok_iff.mpr h]
  exact ⟨_, rfl⟩

theorem takes_conjunctionFrom {c : Condition} (hand : keyword? "AND" us = none) :
    Takes (conjunctionFrom c us) c us := by
  rw [conjunctionFrom, hand]
  exact ⟨_, rfl⟩

theorem takes_disjunctionFrom {c : Condition} (hor : keyword? "OR" us = none) :
    Takes (disjunctionFrom c us) c us := by
  rw [disjunctionFrom, hor]
  exact ⟨_, rfl⟩

mutual

/-- A test is read, whatever follows; between parentheses it is read by a whole disjunction. -/
theorem WritesTest.takes {ts rest : List Token} {c : Condition} :
    WritesTest ts c rest → Takes (test ts) c rest
  | .compare hsubject hsign hop hvalue => by
      rw [test, hsubject.kind?_leftParen]
      refine (hsubject.takes (kind?_eq_none hsign (by decide))
        (kind?_eq_none hsign (by decide))).bind ?_
      intro _
      refine (takes_operator hsign hop).bind ?_
      intro _
      refine hvalue.takes.bind ?_
      intro _
      exact ⟨_, rfl⟩
  | .parens hparen hinner hclose => by
      rw [test, kind?_cons hparen]
      refine (hinner.takes_from (keyword?_eq_none_of_kind hclose (by decide))
        (takes_disjunctionFrom (keyword?_eq_none_of_kind hclose (by decide)))).bind ?_
      intro _
      refine (takes_kind hclose).bind ?_
      intro _
      exact ⟨_, rfl⟩

/-- A conjunction is read as far as it goes, and reading goes on from there. -/
theorem WritesConjunction.takes_from {ts us rest : List Token} {c whole : Condition} :
    WritesConjunction ts c us → Takes (conjunctionFrom c us) whole rest →
      Takes (conjunction ts) whole rest
  | .test htest, hfrom => by
      rw [conjunction]
      refine htest.takes.bind ?_
      intro _
      refine Takes.bind hfrom ?_
      intro _
      exact ⟨_, rfl⟩
  | .and hleft hword hright, hfrom => by
      refine hleft.takes_from ?_
      rw [conjunctionFrom, keyword?_cons hword]
      refine hright.takes.bind ?_
      intro _
      refine Takes.bind hfrom ?_
      intro _
      exact ⟨_, rfl⟩

/-- What a disjunction begins with may be read first. The induction is over its left spine. -/
theorem WritesDisjunction.takes_from {ts us rest : List Token} {c whole : Condition} :
    WritesDisjunction ts c us → keyword? "AND" us = none →
      Takes (disjunctionFrom c us) whole rest → Takes (disjunction ts) whole rest
  | .conjunction h, hand, hfrom => by
      rw [disjunction]
      refine (h.takes_from (takes_conjunctionFrom hand)).bind ?_
      intro _
      refine Takes.bind hfrom ?_
      intro _
      exact ⟨_, rfl⟩
  | .or hleft hword hright, hand, hfrom => by
      refine hleft.takes_from (keyword?_eq_none hword (by decide)) ?_
      rw [disjunctionFrom, keyword?_cons hword]
      refine (hright.takes_from (takes_conjunctionFrom hand)).bind ?_
      intro _
      refine Takes.bind hfrom ?_
      intro _
      exact ⟨_, rfl⟩

end

/-- A disjunction is read whole, unless `AND` or `OR` follows. -/
theorem WritesDisjunction.takes {c : Condition} (h : WritesDisjunction ts c rest)
    (hand : keyword? "AND" rest = none) (hor : keyword? "OR" rest = none) :
    Takes (disjunction ts) c rest :=
  h.takes_from hand (takes_disjunctionFrom hor)

-- ── Groups, order and limit ─────────────────────────────────────────────────

theorem WritesGroupKey.takes {key : GroupKey} (h : WritesGroupKey ts key rest)
    (hdot : kind? .dot rest = none) : Takes (groupKey ts) key rest := by
  rw [groupKey]
  cases h with
  | name hname =>
      refine (hname.takes hdot).bind ?_
      intro _
      exact ⟨_, rfl⟩

/-- What may come after a key of an order: nothing that goes on with a name or a direction. -/
def EndsOrderKey (ts : List Token) : Prop :=
  kind? .dot ts = none ∧ keyword? "ASC" ts = none ∧ keyword? "DESC" ts = none

/-- A direction is read, unless it is left out and its word follows. -/
theorem WritesDirection.takes {way : Direction} (h : WritesDirection ts way rest)
    (hasc : keyword? "ASC" rest = none) (hdesc : keyword? "DESC" rest = none) :
    (direction ts).value = way ∧ (direction ts).rest = rest := by
  rw [direction]
  cases h with
  | unsaid =>
      rw [hdesc, hasc]
      exact ⟨rfl, rfl⟩
  | ascending hword =>
      rw [keyword?_eq_none hword (by decide), keyword?_cons hword]
      exact ⟨rfl, rfl⟩
  | descending hword =>
      rw [keyword?_cons hword]
      exact ⟨rfl, rfl⟩

theorem WritesDirection.kind?_dot {way : Direction} (h : WritesDirection ts way rest)
    (hrest : kind? .dot rest = none) : kind? .dot ts = none := by
  cases h with
  | unsaid => exact hrest
  | ascending hword => exact kind?_eq_none (Token.kind_of_isKeyword hword) (by decide)
  | descending hword => exact kind?_eq_none (Token.kind_of_isKeyword hword) (by decide)

/-- A key to sort by is read whole, unless a dot or a direction follows. -/
theorem WritesOrderKey.takes {key : OrderKey} (h : WritesOrderKey ts key rest)
    (hrest : EndsOrderKey rest) : Takes (orderKey ts) key rest := by
  obtain ⟨hdot, hasc, hdesc⟩ := hrest
  rw [orderKey]
  cases h with
  | key hname hdirection =>
      refine (hname.takes (hdirection.kind?_dot hdot)).bind ?_
      intro _
      obtain ⟨hvalue, hleft⟩ := hdirection.takes hasc hdesc
      subst hvalue
      subst hleft
      exact ⟨_, rfl⟩

theorem WritesCount.takes {n : Nat} (h : WritesCount ts n rest) :
    Takes (limitCount ts) n rest := by
  cases h with
  | number hkind hcount =>
      rw [limitCount]
      simp only [hkind, hcount]
      exact ⟨_, rfl⟩

-- ── Queries ─────────────────────────────────────────────────────────────────

/-- The next token is one of the words, or ends the statement. -/
def Ends (words : List String) (ts : List Token) : Prop :=
  ∃ t us, ts = t :: us ∧ (t.kind = .semicolon ∨ t.kind = .endOfInput ∨
    ∃ word ∈ words, t.isKeyword word = true)

section Ends

variable {words : List String}

theorem Ends.kind?_eq_none (h : Ends words ts) {k : TokenKind}
    (hk : .keyword ≠ k ∧ .semicolon ≠ k ∧ .endOfInput ≠ k) : kind? k ts = none := by
  obtain ⟨t, us, rfl, hkind | hkind | ⟨word, -, hword⟩⟩ := h
  · exact Grammar.kind?_eq_none hkind hk.2.1
  · exact Grammar.kind?_eq_none hkind hk.2.2
  · exact Grammar.kind?_eq_none (Token.kind_of_isKeyword hword) hk.1

/-- Behind a clause no word follows but those of the later ones. -/
theorem Ends.keyword?_eq_none (h : Ends words ts) {word : String} (hw : word ∉ words) :
    keyword? word ts = none := by
  obtain ⟨t, us, rfl, hkind | hkind | ⟨word', hmem, hword⟩⟩ := h
  · exact keyword?_eq_none_of_kind hkind (by decide)
  · exact keyword?_eq_none_of_kind hkind (by decide)
  · refine Grammar.keyword?_eq_none hword ?_
    rintro rfl
    exact hw hmem

/-- A clause in front adds its word. -/
theorem WritesClause.ends {word : String} {Body : List Token → α → List Token → Prop}
    {v : Option α} (h : WritesClause word Body ts v rest) (hrest : Ends words rest) :
    Ends (word :: words) ts := by
  cases h with
  | absent =>
      obtain ⟨t, us, hts, ht⟩ := hrest
      refine ⟨t, us, hts, ht.imp_right (Or.imp_right ?_)⟩
      rintro ⟨word', hmem, hword⟩
      exact ⟨word', List.mem_cons_of_mem _ hmem, hword⟩
  | @present t us _ _ hword _ =>
      exact ⟨t, us, rfl, Or.inr (Or.inr ⟨word, List.mem_cons_self, hword⟩)⟩

end Ends

/-- A query that is written is read, if the end follows. -/
theorem WritesQuery.takes {s : Select} (h : WritesQuery ts s rest) (hrest : Ends [] rest) :
    Takes (query ts) s rest := by
  cases h with
  | select hword hcolumns hfrom htable hjoins hfilter hgroup hhaving horder hlimit =>
      -- what follows each part is one of the later words, or the end
      have hends₇ := hlimit.ends hrest
      have hends₆ := horder.ends hends₇
      have hends₅ := hhaving.ends hends₆
      have hends₄ := hgroup.ends hends₅
      have hends₃ := hfilter.ends hends₄
      have hjoined : kind? .at _ = none := hjoins.kind?_eq_none (by decide)
        (hends₃.kind?_eq_none (by decide))
      have hkeyword := Token.kind_of_isKeyword hfrom
      have hgroupBy : ∀ ts v, WritesBy (WritesList (·.kind = .comma) WritesGroupKey) ts v _ →
          Takes (afterBy (list groupKey) ts) v _ := fun ts v hby => hby.takes fun ts hlist =>
        hlist.takes_list (fun _ _ hs => kind?_eq_none hs (by decide))
          (fun _ _ _ => WritesGroupKey.takes) (hends₅.kind?_eq_none (by decide))
          (hends₅.kind?_eq_none (by decide))
      have horderBy : ∀ ts v, WritesBy (WritesList (·.kind = .comma) WritesOrderKey) ts v _ →
          Takes (afterBy (list orderKey) ts) v _ := fun ts v hby => hby.takes fun ts hlist =>
        hlist.takes_list (fun _ _ hs => ⟨kind?_eq_none hs (by decide),
            keyword?_eq_none_of_kind hs (by decide), keyword?_eq_none_of_kind hs (by decide)⟩)
          (fun _ _ _ => WritesOrderKey.takes) ⟨hends₇.kind?_eq_none (by decide),
            hends₇.keyword?_eq_none (by decide), hends₇.keyword?_eq_none (by decide)⟩
          (hends₇.kind?_eq_none (by decide))
      rw [query]
      refine (takes_keyword hword).bind ?_
      intro _
      refine (hcolumns.takes ⟨kind?_eq_none hkeyword (by decide),
        kind?_eq_none hkeyword (by decide), keyword?_eq_none hfrom (by decide)⟩
        (kind?_eq_none hkeyword (by decide))).bind ?_
      intro _
      refine (takes_keyword hfrom).bind ?_
      intro _
      refine (htable.takes hjoined).bind ?_
      intro _
      refine (hjoins.takes (hends₃.keyword?_eq_none (by decide))
        (hends₃.keyword?_eq_none (by decide)) (hends₃.keyword?_eq_none (by decide))).bind ?_
      intro _
      refine (hfilter.takes (fun _ _ hc => hc.takes (hends₄.keyword?_eq_none (by decide))
        (hends₄.keyword?_eq_none (by decide))) (hends₄.keyword?_eq_none (by decide))).bind ?_
      intro _
      refine (hgroup.takes hgroupBy (hends₅.keyword?_eq_none (by decide))).bind ?_
      intro _
      refine (hhaving.takes (fun _ _ hc => hc.takes (hends₆.keyword?_eq_none (by decide))
        (hends₆.keyword?_eq_none (by decide))) (hends₆.keyword?_eq_none (by decide))).bind ?_
      intro _
      refine (horder.takes horderBy (hends₇.keyword?_eq_none (by decide))).bind ?_
      intro _
      refine (hlimit.takes (fun _ _ => WritesCount.takes)
        (hrest.keyword?_eq_none (by decide))).bind ?_
      intro _
      exact ⟨_, rfl⟩

end Grammar

end DocQuery
