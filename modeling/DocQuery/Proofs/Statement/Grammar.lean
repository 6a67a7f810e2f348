import DocQuery.Statement.Parser

/-!
# The grammar of queries

What tokens write, said without reading them: for each nonterminal a relation between a list of
tokens, the tree that its front writes, and the tokens after that front. A rule takes tokens
off one by one and never looks ahead. `AND` binds tighter than `OR`, both nest to the left, and
parentheses leave no trace in the tree.

    WritesStatement = SELECT columns FROM table joins [WHERE or] [GROUP BY names] [HAVING or]
                      [ORDER BY keys] [LIMIT count] [;] end

No rule takes the end of the input for anything but the end (`Consumes`).
-/

namespace DocQuery

namespace Token

variable {t : Token} {word : String}

theorem isKeyword_iff : t.isKeyword word = true ↔ t.kind = .keyword ∧ t.text = word := by
  rw [isKeyword, Bool.and_eq_true, beq_iff_eq, beq_iff_eq]

theorem kind_of_isKeyword (h : t.isKeyword word = true) : t.kind = .keyword :=
  (isKeyword_iff.mp h).1

theorem text_of_isKeyword (h : t.isKeyword word = true) : t.text = word :=
  (isKeyword_iff.mp h).2

end Token

namespace Grammar

variable {α : Type}

-- ── Lists and clauses ───────────────────────────────────────────────────────

/-- One or more items, with a separator between two. -/
inductive WritesList (separates : Token → Prop) (Item : List Token → α → List Token → Prop) :
    List Token → List α → List Token → Prop where
  | one {ts rest x} : Item ts x rest → WritesList separates Item ts [x] rest
  | cons {ts sep us x xs rest} : Item ts x (sep :: us) → separates sep →
      WritesList separates Item us xs rest → WritesList separates Item ts (x :: xs) rest

/-- A keyword and a body, or neither. -/
inductive WritesClause (word : String) (Body : List Token → α → List Token → Prop) :
    List Token → Option α → List Token → Prop where
  | absent {ts} : WritesClause word Body ts none ts
  | present {t ts v rest} : t.isKeyword word = true → Body ts v rest →
      WritesClause word Body (t :: ts) (some v) rest

/-- The word `BY` and a body. -/
inductive WritesBy (Body : List Token → α → List Token → Prop) :
    List Token → α → List Token → Prop where
  | word {t ts v rest} : t.isKeyword "BY" = true → Body ts v rest → WritesBy Body (t :: ts) v rest

-- ── Names ───────────────────────────────────────────────────────────────────

/-- An identifier. -/
inductive WritesName : List Token → String → List Token → Prop where
  | identifier {t rest} : t.kind = .identifier → WritesName (t :: rest) t.text rest

/-- A name that may be qualified by a table. -/
inductive WritesColumnName : List Token → Option String → String → List Token → Prop where
  | bare {ts name rest} : WritesName ts name rest → WritesColumnName ts none name rest
  | qualified {ts table dot us name rest} : WritesName ts table (dot :: us) → dot.kind = .dot →
      WritesName us name rest → WritesColumnName ts (some table) name rest

/-- A table, and the index to read it by after a sign. -/
inductive WritesTable : List Token → String → Option String → List Token → Prop where
  | bare {ts name rest} : WritesName ts name rest → WritesTable ts name none rest
  | hinted {ts name sign us index rest} : WritesName ts name (sign :: us) → sign.kind = .at →
      WritesName us index rest → WritesTable ts name (some index) rest

/-- The name that a column is shown under. -/
abbrev WritesLabel : List Token → Option String → List Token → Prop :=
  WritesClause "AS" WritesName

-- ── Calls ───────────────────────────────────────────────────────────────────

mutual

/-- An argument of a call. The name of a nested call is put in upper case. -/
inductive WritesArgument : List Token → Argument → List Token → Prop where
  | star {t rest} : t.kind = .star → WritesArgument (t :: rest) .star rest
  | column {ts table name rest} : WritesColumnName ts table name rest →
      WritesArgument ts (.column table name) rest
  | tableStar {ts table dot star rest} : WritesName ts table (dot :: star :: rest) →
      dot.kind = .dot → star.kind = .star → WritesArgument ts (.tableStar table) rest
  | call {ts name paren us args rest} : WritesName ts name (paren :: us) →
      paren.kind = .leftParen → WritesArguments us args rest →
      WritesArgument ts (.call (Text.upper name) args) rest

/-- The arguments of a call after its opening parenthesis, and the closing one. -/
inductive WritesArguments : List Token → List Argument → List Token → Prop where
  | none {paren rest} : paren.kind = .rightParen → WritesArguments (paren :: rest) [] rest
  | some {ts arg us args rest} : WritesArgument ts arg us → WritesMoreArguments us args rest →
      WritesArguments ts (arg :: args) rest

/-- The arguments of a call after one of them, each behind a comma, and the closing
    parenthesis. -/
inductive WritesMoreArguments : List Token → List Argument → List Token → Prop where
  | close {paren rest} : paren.kind = .rightParen → WritesMoreArguments (paren :: rest) [] rest
  | comma {sign ts arg us args rest} : sign.kind = .comma → WritesArgument ts arg us →
      WritesMoreArguments us args rest → WritesMoreArguments (sign :: ts) (arg :: args) rest

end

/-- A call; its name is put in upper case. -/
inductive WritesCall : List Token → Call → List Token → Prop where
  | call {ts name paren us args rest} : WritesName ts name (paren :: us) →
      paren.kind = .leftParen → WritesArguments us args rest →
      WritesCall ts ⟨Text.upper name, args⟩ rest

-- ── Columns ─────────────────────────────────────────────────────────────────

/-- A selected column. A table's star has no label. -/
inductive WritesColumn : List Token → Column → List Token → Prop where
  | field {ts table name us label rest} : WritesColumnName ts table name us →
      WritesLabel us label rest → WritesColumn ts (.field table name label) rest
  | tableStar {ts table dot star rest} : WritesName ts table (dot :: star :: rest) →
      dot.kind = .dot → star.kind = .star → WritesColumn ts (.tableStar table) rest
  | call {ts call us label rest} : WritesCall ts call us → WritesLabel us label rest →
      WritesColumn ts (.call call label) rest

/-- The selected columns: a star on its own, or a list. -/
inductive WritesColumns : List Token → List Column → List Token → Prop where
  | star {t rest} : t.kind = .star → WritesColumns (t :: rest) [.star] rest
  | list {ts columns rest} : WritesList (·.kind = .comma) WritesColumn ts columns rest →
      WritesColumns ts columns rest

-- ── Joins ───────────────────────────────────────────────────────────────────

/-- An equality of two names, each qualified by its table. -/
inductive WritesEquality : List Token → JoinCondition → List Token → Prop where
  | equals {ts leftTable leftField sign us rightTable rightField rest} :
      WritesColumnName ts (some leftTable) leftField (sign :: us) → sign.kind = .operator →
      sign.text = "=" → WritesColumnName us (some rightTable) rightField rest →
      WritesEquality ts ⟨leftTable, leftField, rightTable, rightField⟩ rest

/-- The words before a joined table: `JOIN` or `INNER JOIN`. -/
inductive WritesJoinWords : List Token → List Token → Prop where
  | join {t rest} : t.isKeyword "JOIN" = true → WritesJoinWords (t :: rest) rest
  | inner {t u rest} : t.isKeyword "INNER" = true → u.isKeyword "JOIN" = true →
      WritesJoinWords (t :: u :: rest) rest

/-- A joined table. -/
inductive WritesJoin : List Token → Join → List Token → Prop where
  | join {ts us table hint word vs conditions rest} : WritesJoinWords ts us →
      WritesTable us table hint (word :: vs) → word.isKeyword "ON" = true →
      WritesList (·.isKeyword "AND" = true) WritesEquality vs conditions rest →
      WritesJoin ts ⟨table, hint, conditions⟩ rest

/-- Any number of joined tables. -/
inductive WritesJoins : List Token → List Join → List Token → Prop where
  | nil {ts} : WritesJoins ts [] ts
  | cons {ts join us joins rest} : WritesJoin ts join us → WritesJoins us joins rest →
      WritesJoins ts (join :: joins) rest

-- ── Conditions ──────────────────────────────────────────────────────────────

/-- What a comparison reads. -/
inductive WritesSubject : List Token → Subject → List Token → Prop where
  | column {ts table name rest} : WritesColumnName ts table name rest →
      WritesSubject ts (.column table name) rest
  | call {ts call rest} : WritesCall ts call rest → WritesSubject ts (.call call) rest

/-- A literal: a string, a number, or one of three words. -/
inductive WritesLiteral : Token → Value → Prop where
  | text {t} : t.kind = .string → WritesLiteral t (.text t.text)
  | number {t x} : t.kind = .number → Number.ofText? t.text = some x →
      WritesLiteral t (.number x)
  | true {t} : t.isKeyword "TRUE" = true → WritesLiteral t (.boolean true)
  | false {t} : t.isKeyword "FALSE" = true → WritesLiteral t (.boolean false)
  | null {t} : t.isKeyword "NULL" = true → WritesLiteral t .null

mutual

/-- A comparison, or a condition in parentheses, which add nothing to it. -/
inductive WritesTest : List Token → Condition → List Token → Prop where
  | compare {ts subject sign op literal value rest} :
      WritesSubject ts subject (sign :: literal :: rest) → sign.kind = .operator →
      Operator.ofSymbol? sign.text = some op → WritesLiteral literal value →
      WritesTest ts (.compare ⟨subject, op, value⟩) rest
  | parens {paren ts c close rest} : paren.kind = .leftParen →
      WritesDisjunction ts c (close :: rest) → close.kind = .rightParen →
      WritesTest (paren :: ts) c rest

/-- Tests joined by `AND`, nested to the left. -/
inductive WritesConjunction : List Token → Condition → List Token → Prop where
  | test {ts c rest} : WritesTest ts c rest → WritesConjunction ts c rest
  | and {ts left word us right rest} : WritesConjunction ts left (word :: us) →
      word.isKeyword "AND" = true → WritesTest us right rest →
      WritesConjunction ts (.and left right) rest

/-- Conjunctions joined by `OR`, nested to the left. -/
inductive WritesDisjunction : List Token → Condition → List Token → Prop where
  | conjunction {ts c rest} : WritesConjunction ts c rest → WritesDisjunction ts c rest
  | or {ts left word us right rest} : WritesDisjunction ts left (word :: us) →
      word.isKeyword "OR" = true → WritesConjunction us right rest →
      WritesDisjunction ts (.or left right) rest

end

-- ── Groups, order and limit ─────────────────────────────────────────────────

/-- A column to group by. -/
inductive WritesGroupKey : List Token → GroupKey → List Token → Prop where
  | name {ts table field rest} : WritesColumnName ts table field rest →
      WritesGroupKey ts ⟨table, field⟩ rest

/-- A direction, ascending if none is written. -/
inductive WritesDirection : List Token → Direction → List Token → Prop where
  | unsaid {ts} : WritesDirection ts .ascending ts
  | ascending {t rest} : t.isKeyword "ASC" = true → WritesDirection (t :: rest) .ascending rest
  | descending {t rest} : t.isKeyword "DESC" = true → WritesDirection (t :: rest) .descending rest

/-- A column to order by. -/
inductive WritesOrderKey : List Token → OrderKey → List Token → Prop where
  | key {ts table field us direction rest} : WritesColumnName ts table field us →
      WritesDirection us direction rest → WritesOrderKey ts ⟨table, field, direction⟩ rest

/-- A count: a number whose text is one. -/
inductive WritesCount : List Token → Nat → List Token → Prop where
  | number {t n rest} : t.kind = .number → Number.countOfText? t.text = some n →
      WritesCount (t :: rest) n rest

-- ── Queries ─────────────────────────────────────────────────────────────────

/-- A query up to its limit. -/
inductive WritesQuery : List Token → Select → List Token → Prop where
  | select {word ts columns fromWord ts₁ source hint ts₂ joins ts₃ filter ts₄ groupBy ts₅ having
      ts₆ orderBy ts₇ limit rest} :
      word.isKeyword "SELECT" = true → WritesColumns ts columns (fromWord :: ts₁) →
      fromWord.isKeyword "FROM" = true → WritesTable ts₁ source hint ts₂ →
      WritesJoins ts₂ joins ts₃ →
      WritesClause "WHERE" WritesDisjunction ts₃ filter ts₄ →
      WritesClause "GROUP" (WritesBy (WritesList (·.kind = .comma) WritesGroupKey))
        ts₄ groupBy ts₅ →
      WritesClause "HAVING" WritesDisjunction ts₅ having ts₆ →
      WritesClause "ORDER" (WritesBy (WritesList (·.kind = .comma) WritesOrderKey))
        ts₆ orderBy ts₇ →
      WritesClause "LIMIT" WritesCount ts₇ limit rest →
      WritesQuery (word :: ts)
        { columns := columns
          source := source
          indexHint := hint
          joins := joins
          filter := filter
          groupBy := groupBy.getD []
          having := having
          orderBy := orderBy.getD []
          limit := limit } rest

/-- A query, at most one semicolon, and the end of the input. -/
inductive WritesStatement : List Token → Select → Prop where
  | plain {ts s last} : WritesQuery ts s [last] → last.kind = .endOfInput → WritesStatement ts s
  | semicolon {ts s sign last} : WritesQuery ts s [sign, last] → sign.kind = .semicolon →
      last.kind = .endOfInput → WritesStatement ts s

-- ── What a rule takes ───────────────────────────────────────────────────────

/-- What is left when tokens are taken off the front, none of which ends the input. -/
def Consumes (ts rest : List Token) : Prop :=
  ∃ front, ts = front ++ rest ∧ ∀ t ∈ front, t.kind ≠ .endOfInput

theorem Consumes.refl (ts : List Token) : Consumes ts ts :=
  ⟨[], rfl, fun _ h => (nomatch h)⟩

/-- What two rules take in turn is taken off the front together. -/
theorem Consumes.trans {ts us vs : List Token} (h : Consumes ts us) (h' : Consumes us vs) :
    Consumes ts vs := by
  obtain ⟨front, rfl, hfront⟩ := h
  obtain ⟨front', rfl, hfront'⟩ := h'
  refine ⟨front ++ front', (List.append_assoc _ _ _).symm, ?_⟩
  intro t ht
  rcases List.mem_append.mp ht with ht | ht
  · exact hfront t ht
  · exact hfront' t ht

/-- A rule may take any token but the end of the input. -/
theorem Consumes.of_kind {t : Token} {rest : List Token} {k : TokenKind} (h : t.kind = k)
    (hk : k ≠ .endOfInput) : Consumes (t :: rest) rest := by
  refine ⟨[t], rfl, ?_⟩
  intro u hu
  rw [List.mem_singleton.mp hu, h]
  exact hk

theorem Consumes.of_keyword {t : Token} {rest : List Token} {word : String}
    (h : t.isKeyword word = true) : Consumes (t :: rest) rest :=
  of_kind (Token.kind_of_isKeyword h) (by decide)

section Consumes

variable {ts rest : List Token}

/-- A list takes what its items and the separators between them take. -/
theorem WritesList.consumes {separates : Token → Prop} {Item : List Token → α → List Token → Prop}
    (hsep : ∀ t us, separates t → Consumes (t :: us) us)
    (hitem : ∀ ts x rest, Item ts x rest → Consumes ts rest) {xs : List α}
    (h : WritesList separates Item ts xs rest) : Consumes ts rest := by
  induction h with
  | one hx => exact hitem _ _ _ hx
  | cons hx hs _ ih => exact (hitem _ _ _ hx).trans ((hsep _ _ hs).trans ih)

/-- A clause takes its keyword and its body, or nothing. -/
theorem WritesClause.consumes {word : String} {Body : List Token → α → List Token → Prop}
    (hbody : ∀ ts v rest, Body ts v rest → Consumes ts rest) {v : Option α}
    (h : WritesClause word Body ts v rest) : Consumes ts rest := by
  cases h with
  | absent => exact .refl _
  | present hword hv => exact (Consumes.of_keyword hword).trans (hbody _ _ _ hv)

/-- The word `BY` is taken with the body behind it. -/
theorem WritesBy.consumes {Body : List Token → α → List Token → Prop}
    (hbody : ∀ ts v rest, Body ts v rest → Consumes ts rest) {v : α}
    (h : WritesBy Body ts v rest) : Consumes ts rest := by
  cases h with
  | word hword hv => exact (Consumes.of_keyword hword).trans (hbody _ _ _ hv)

/-- A name takes one token, which is not the end. -/
theorem WritesName.consumes {name : String} (h : WritesName ts name rest) : Consumes ts rest := by
  cases h with
  | identifier hkind => exact .of_kind hkind (by decide)

/-- A name of a column takes the names that it is made of and the dot between them. -/
theorem WritesColumnName.consumes {table : Option String} {name : String}
    (h : WritesColumnName ts table name rest) : Consumes ts rest := by
  cases h with
  | bare hname => exact hname.consumes
  | qualified htable hdot hname =>
      exact htable.consumes.trans ((Consumes.of_kind hdot (by decide)).trans hname.consumes)

/-- A table takes its name and the hint behind it. -/
theorem WritesTable.consumes {name : String} {hint : Option String}
    (h : WritesTable ts name hint rest) : Consumes ts rest := by
  cases h with
  | bare hname => exact hname.consumes
  | hinted hname hsign hindex =>
      exact hname.consumes.trans ((Consumes.of_kind hsign (by decide)).trans hindex.consumes)

theorem WritesLabel.consumes {label : Option String} (h : WritesLabel ts label rest) :
    Consumes ts rest :=
  WritesClause.consumes (fun _ _ _ => WritesName.consumes) h

mutual

/-- An argument takes no end of input. The recursion is over nested calls. -/
theorem WritesArgument.consumes {ts rest : List Token} {arg : Argument} :
    WritesArgument ts arg rest → Consumes ts rest
  | .star hstar => .of_kind hstar (by decide)
  | .column hname => hname.consumes
  | .tableStar htable hdot hstar =>
      htable.consumes.trans ((Consumes.of_kind hdot (by decide)).trans
        (.of_kind hstar (by decide)))
  | .call hname hparen hargs =>
      hname.consumes.trans ((Consumes.of_kind hparen (by decide)).trans hargs.consumes)

/-- The arguments of a call end at the closing parenthesis. -/
theorem WritesArguments.consumes {ts rest : List Token} {args : List Argument} :
    WritesArguments ts args rest → Consumes ts rest
  | .none hparen => .of_kind hparen (by decide)
  | .some harg hmore => harg.consumes.trans hmore.consumes

theorem WritesMoreArguments.consumes {ts rest : List Token} {args : List Argument} :
    WritesMoreArguments ts args rest → Consumes ts rest
  | .close hparen => .of_kind hparen (by decide)
  | .comma hsign harg hmore =>
      (Consumes.of_kind hsign (by decide)).trans (harg.consumes.trans hmore.consumes)

end

theorem WritesCall.consumes {call : Call} (h : WritesCall ts call rest) : Consumes ts rest := by
  cases h with
  | call hname hparen hargs =>
      exact hname.consumes.trans ((Consumes.of_kind hparen (by decide)).trans hargs.consumes)

/-- A column takes its label, too. -/
theorem WritesColumn.consumes {column : Column} (h : WritesColumn ts column rest) :
    Consumes ts rest := by
  cases h with
  | field hname hlabel => exact hname.consumes.trans (WritesLabel.consumes hlabel)
  | tableStar htable hdot hstar =>
      exact htable.consumes.trans ((Consumes.of_kind hdot (by decide)).trans
        (.of_kind hstar (by decide)))
  | call hcall hlabel => exact hcall.consumes.trans (WritesLabel.consumes hlabel)

theorem WritesColumns.consumes {columns : List Column} (h : WritesColumns ts columns rest) :
    Consumes ts rest := by
  cases h with
  | star hstar => exact .of_kind hstar (by decide)
  | list hlist =>
      exact hlist.consumes (fun _ _ hs => .of_kind hs (by decide))
        fun _ _ _ => WritesColumn.consumes

theorem WritesEquality.consumes {c : JoinCondition} (h : WritesEquality ts c rest) :
    Consumes ts rest := by
  cases h with
  | equals hleft hsign _ hright =>
      exact hleft.consumes.trans ((Consumes.of_kind hsign (by decide)).trans hright.consumes)

/-- A join is opened by one word or by two. -/
theorem WritesJoinWords.consumes (h : WritesJoinWords ts rest) : Consumes ts rest := by
  cases h with
  | join hjoin => exact .of_keyword hjoin
  | inner hinner hjoin => exact (Consumes.of_keyword hinner).trans (.of_keyword hjoin)

/-- A join takes its table and all its equalities. -/
theorem WritesJoin.consumes {join : Join} (h : WritesJoin ts join rest) : Consumes ts rest := by
  cases h with
  | join hwords htable hon hconditions =>
      exact hwords.consumes.trans (htable.consumes.trans ((Consumes.of_keyword hon).trans
        (hconditions.consumes (fun _ _ => .of_keyword) fun _ _ _ => WritesEquality.consumes)))

/-- The joins are taken one by one, or there are none. -/
theorem WritesJoins.consumes {joins : List Join} (h : WritesJoins ts joins rest) :
    Consumes ts rest := by
  induction h with
  | nil => exact .refl _
  | cons hjoin _ ih => exact hjoin.consumes.trans ih

theorem WritesSubject.consumes {subject : Subject} (h : WritesSubject ts subject rest) :
    Consumes ts rest := by
  cases h with
  | column hname => exact hname.consumes
  | call hcall => exact hcall.consumes

/-- A literal is one token, which is not the end. -/
theorem WritesLiteral.consumes {t : Token} {value : Value} (h : WritesLiteral t value) :
    Consumes (t :: rest) rest := by
  cases h with
  | text hkind => exact .of_kind hkind (by decide)
  | number hkind _ => exact .of_kind hkind (by decide)
  | true hword => exact .of_keyword hword
  | false hword => exact .of_keyword hword
  | null hword => exact .of_keyword hword

mutual

/-- A comparison takes three parts, and a condition in parentheses takes these as well. -/
theorem WritesTest.consumes {ts rest : List Token} {c : Condition} :
    WritesTest ts c rest → Consumes ts rest
  | .compare hsubject hsign _ hvalue =>
      hsubject.consumes.trans ((Consumes.of_kind hsign (by decide)).trans hvalue.consumes)
  | .parens hparen hinner hclose =>
      (Consumes.of_kind hparen (by decide)).trans
        (hinner.consumes.trans (.of_kind hclose (by decide)))

/-- A conjunction takes its tests and the words between them. -/
theorem WritesConjunction.consumes {ts rest : List Token} {c : Condition} :
    WritesConjunction ts c rest → Consumes ts rest
  | .test h => h.consumes
  | .and hleft hword hright =>
      hleft.consumes.trans ((Consumes.of_keyword hword).trans hright.consumes)

theorem WritesDisjunction.consumes {ts rest : List Token} {c : Condition} :
    WritesDisjunction ts c rest → Consumes ts rest
  | .conjunction h => h.consumes
  | .or hleft hword hright =>
      hleft.consumes.trans ((Consumes.of_keyword hword).trans hright.consumes)

end

theorem WritesGroupKey.consumes {key : GroupKey} (h : WritesGroupKey ts key rest) :
    Consumes ts rest := by
  cases h with
  | name hname => exact hname.consumes

theorem WritesDirection.consumes {direction : Direction} (h : WritesDirection ts direction rest) :
    Consumes ts rest := by
  cases h with
  | unsaid => exact .refl _
  | ascending hword => exact .of_keyword hword
  | descending hword => exact .of_keyword hword

/-- A key to sort by takes its name and its direction. -/
theorem WritesOrderKey.consumes {key : OrderKey} (h : WritesOrderKey ts key rest) :
    Consumes ts rest := by
  cases h with
  | key hname hdirection => exact hname.consumes.trans hdirection.consumes

theorem WritesCount.consumes {n : Nat} (h : WritesCount ts n rest) : Consumes ts rest := by
  cases h with
  | number hkind _ => exact .of_kind hkind (by decide)

/-- A query takes its clauses in turn and leaves the end to the statement. -/
theorem WritesQuery.consumes {s : Select} (h : WritesQuery ts s rest) : Consumes ts rest := by
  have hcomma : ∀ (t : Token) us, t.kind = .comma → Consumes (t :: us) us :=
    fun _ _ hs => .of_kind hs (by decide)
  cases h with
  | select hword hcolumns hfrom htable hjoins hfilter hgroup hhaving horder hlimit =>
      have hgroup := hgroup.consumes fun _ _ _ hby => hby.consumes fun _ _ _ hlist =>
        hlist.consumes hcomma fun _ _ _ => WritesGroupKey.consumes
      have horder := horder.consumes fun _ _ _ hby => hby.consumes fun _ _ _ hlist =>
        hlist.consumes hcomma fun _ _ _ => WritesOrderKey.consumes
      have hfilter := hfilter.consumes fun _ _ _ => WritesDisjunction.consumes
      have hhaving := hhaving.consumes fun _ _ _ => WritesDisjunction.consumes
      have hlimit := hlimit.consumes fun _ _ _ => WritesCount.consumes
      exact (Consumes.of_keyword hword).trans (hcolumns.consumes.trans
        ((Consumes.of_keyword hfrom).trans (htable.consumes.trans (hjoins.consumes.trans
          (hfilter.trans (hgroup.trans (hhaving.trans (horder.trans hlimit))))))))

end Consumes

end Grammar

end DocQuery
