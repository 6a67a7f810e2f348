import DocQuery.Proofs.Number.Numeral
import DocQuery.Proofs.Statement.Grammar
import DocQuery.Proofs.Text.Case

/-!
# The spelling of a statement

Every tree that some tokens write has a spelling of its own (`Select.spelling`): conditions other
than comparisons stand in parentheses, an ascending order is said, and the statement ends
without a semicolon. A spelling is put in front of the tokens that follow it, as the rules of
the grammar take it off again. `WritesStatement.spelled` says that the spelling writes the same
tree.
-/

namespace DocQuery

namespace Grammar

variable {α : Type}

-- ── Spellings ───────────────────────────────────────────────────────────────

/-- A keyword. Where it would stand is not kept. -/
def wordToken (word : String) : Token :=
  ⟨.keyword, word, 0⟩

/-- A comma. -/
def commaToken : Token :=
  ⟨.comma, ",", 0⟩

/-- Items with a separator between two. -/
def spellList (separator : Token) (item : α → List Token → List Token) :
    List α → List Token → List Token
  | [], rest => rest
  | [x], rest => item x rest
  | x :: y :: xs, rest => item x (separator :: spellList separator item (y :: xs) rest)

/-- A part with its keyword in front, if it is there. -/
def spellClause (word : String) (body : α → List Token → List Token) :
    Option α → List Token → List Token
  | none, rest => rest
  | some v, rest => wordToken word :: body v rest

/-- A list after the word `BY`. -/
def spellBy (item : α → List Token → List Token) (xs : List α) (rest : List Token) : List Token :=
  wordToken "BY" :: spellList commaToken item xs rest

/-- A list is a clause of its own if it has items. -/
def clauseOf (xs : List α) : Option (List α) :=
  if xs.isEmpty then none else some xs

/-- An identifier. -/
def spellName (name : String) (rest : List Token) : List Token :=
  ⟨.identifier, name, 0⟩ :: rest

/-- A name, after the table that it is qualified by. -/
def spellColumnName : Option String → String → List Token → List Token
  | none, name, rest => spellName name rest
  | some table, name, rest => spellName table (⟨.dot, ".", 0⟩ :: spellName name rest)

/-- A table, and the index to read it by. -/
def spellTable : String → Option String → List Token → List Token
  | name, none, rest => spellName name rest
  | name, some index, rest => spellName name (⟨.at, "@", 0⟩ :: spellName index rest)

/-- A table's star. -/
def spellTableStar (table : String) (rest : List Token) : List Token :=
  spellName table (⟨.dot, ".", 0⟩ :: ⟨.star, "*", 0⟩ :: rest)

mutual

/-- An argument of a call. -/
def spellArgument : Argument → List Token → List Token
  | .star, rest => ⟨.star, "*", 0⟩ :: rest
  | .tableStar table, rest => spellTableStar table rest
  | .column table name, rest => spellColumnName table name rest
  | .call name args, rest => spellName name (⟨.leftParen, "(", 0⟩ :: spellArguments args rest)

/-- Arguments and the closing parenthesis. -/
def spellArguments : List Argument → List Token → List Token
  | [], rest => ⟨.rightParen, ")", 0⟩ :: rest
  | arg :: args, rest => spellArgument arg (spellMoreArguments args rest)

/-- Arguments, each behind a comma, and the closing parenthesis. -/
def spellMoreArguments : List Argument → List Token → List Token
  | [], rest => ⟨.rightParen, ")", 0⟩ :: rest
  | arg :: args, rest => commaToken :: spellArgument arg (spellMoreArguments args rest)

end

/-- A call. -/
def spellCall (call : Call) (rest : List Token) : List Token :=
  spellName call.name (⟨.leftParen, "(", 0⟩ :: spellArguments call.arguments rest)

/-- A selected column. -/
def spellColumn : Column → List Token → List Token
  | .star, rest => ⟨.star, "*", 0⟩ :: rest
  | .tableStar table, rest => spellTableStar table rest
  | .field table name label, rest =>
    spellColumnName table name (spellClause "AS" spellName label rest)
  | .call call label, rest => spellCall call (spellClause "AS" spellName label rest)

/-- An equality of two qualified names. -/
def spellEquality (c : JoinCondition) (rest : List Token) : List Token :=
  spellColumnName (some c.leftTable) c.leftField
    (⟨.operator, "=", 0⟩ :: spellColumnName (some c.rightTable) c.rightField rest)

/-- Joined tables. -/
def spellJoins : List Join → List Token → List Token
  | [], rest => rest
  | join :: joins, rest => wordToken "JOIN" :: spellTable join.table join.indexHint
      (wordToken "ON" :: spellList (wordToken "AND") spellEquality join.conditions
        (spellJoins joins rest))

/-- What a comparison reads. -/
def spellSubject : Subject → List Token → List Token
  | .column table name, rest => spellColumnName table name rest
  | .call call, rest => spellCall call rest

/-- A literal. -/
def literalToken : Value → Token
  | .null => wordToken "NULL"
  | .boolean b => wordToken (if b then "TRUE" else "FALSE")
  | .number x => ⟨.number, x.numeral, 0⟩
  | .text s => ⟨.string, s, 0⟩

/-- A condition, in parentheses unless it is a comparison. -/
def spellTest : Condition → List Token → List Token
  | .compare c, rest => spellSubject c.subject
      (⟨.operator, c.operator.symbol, 0⟩ :: literalToken c.value :: rest)
  | .and left right, rest => ⟨.leftParen, "(", 0⟩ :: spellTest left
      (wordToken "AND" :: spellTest right (⟨.rightParen, ")", 0⟩ :: rest))
  | .or left right, rest => ⟨.leftParen, "(", 0⟩ :: spellTest left
      (wordToken "OR" :: spellTest right (⟨.rightParen, ")", 0⟩ :: rest))

/-- A column to group by. -/
def spellGroupKey (key : GroupKey) (rest : List Token) : List Token :=
  spellColumnName key.table key.field rest

/-- A direction. -/
def directionToken : Direction → Token
  | .ascending => wordToken "ASC"
  | .descending => wordToken "DESC"

/-- A column to order by, and its direction. -/
def spellOrderKey (key : OrderKey) (rest : List Token) : List Token :=
  spellColumnName key.table key.field (directionToken key.direction :: rest)

/-- A count. -/
def spellCount (n : Nat) (rest : List Token) : List Token :=
  ⟨.number, toString n, 0⟩ :: rest

/-- A query. -/
def spellQuery (s : Select) (rest : List Token) : List Token :=
  wordToken "SELECT" :: spellList commaToken spellColumn s.columns
    (wordToken "FROM" :: spellTable s.source s.indexHint (spellJoins s.joins
      (spellClause "WHERE" spellTest s.filter
        (spellClause "GROUP" (spellBy spellGroupKey) (clauseOf s.groupBy)
          (spellClause "HAVING" spellTest s.having
            (spellClause "ORDER" (spellBy spellOrderKey) (clauseOf s.orderBy)
              (spellClause "LIMIT" spellCount s.limit rest)))))))

end Grammar

/-- The statement as tokens, with their end. -/
def Select.spelling (s : Select) : List Token :=
  Grammar.spellQuery s [⟨.endOfInput, "", 0⟩]

namespace Grammar

variable {α : Type} {ts rest : List Token}

-- ── Lists and clauses ───────────────────────────────────────────────────────

/-- The spelling writes the value, whatever comes after it. -/
def Spells (Writes : List Token → α → List Token → Prop) (spell : α → List Token → List Token)
    (v : α) : Prop :=
  ∀ rest, Writes (spell v rest) v rest

/-- The spelling of a list is derived if that of each item is. -/
theorem WritesList.spelled {separates : Token → Prop} {separator : Token}
    {Item : List Token → α → List Token → Prop} {item : α → List Token → List Token}
    {xs : List α} (h : WritesList separates Item ts xs rest) (hsep : separates separator)
    (hitem : ∀ ts x rest, Item ts x rest → Spells Item item x) :
    Spells (WritesList separates Item) (spellList separator item) xs := by
  induction h with
  | one hx =>
      intro rest
      exact .one (hitem _ _ _ hx rest)
  | cons hx _ hxs ih =>
      intro rest
      -- a list that is written has items, so a separator is spelled before it
      cases hxs with
      | one _ => exact .cons (hitem _ _ _ hx _) hsep (ih rest)
      | cons _ _ _ => exact .cons (hitem _ _ _ hx _) hsep (ih rest)

/-- A derived list has at least one item. -/
theorem WritesList.ne_nil {separates : Token → Prop} {Item : List Token → α → List Token → Prop}
    {xs : List α} (h : WritesList separates Item ts xs rest) : xs ≠ [] := by
  cases h with
  | one _ => exact List.cons_ne_nil _ _
  | cons _ _ _ => exact List.cons_ne_nil _ _

theorem isKeyword_wordToken (word : String) : (wordToken word).isKeyword word = true :=
  beq_self_eq_true word

theorem kind_commaToken : commaToken.kind = .comma :=
  rfl

/-- The spelling of a clause is derived if that of its body is. -/
theorem WritesClause.spelled {word : String} {Body : List Token → α → List Token → Prop}
    {body : α → List Token → List Token} (hbody : ∀ ts v rest, Body ts v rest → Spells Body body v)
    {v : Option α} (h : WritesClause word Body ts v rest) :
    Spells (WritesClause word Body) (spellClause word body) v := by
  intro rest
  cases h with
  | absent => exact .absent
  | present _ hv => exact .present (isKeyword_wordToken word) (hbody _ _ _ hv rest)

/-- A clause with a list is spelled from its items alone. -/
theorem WritesClause.spelled_by {word : String} {Item : List Token → α → List Token → Prop}
    {item : α → List Token → List Token} (hitem : ∀ x, Spells Item item x) {v : Option (List α)}
    (h : WritesClause word (WritesBy (WritesList (·.kind = .comma) Item)) ts v rest) :
    clauseOf (v.getD []) = v ∧
      Spells (WritesClause word (WritesBy (WritesList (·.kind = .comma) Item)))
        (spellClause word (spellBy item)) v := by
  refine ⟨?_, WritesClause.spelled ?_ h⟩
  · cases h with
    | absent => rfl
    | present _ hby =>
        cases hby with
        | word _ hlist => exact if_neg (by simpa using hlist.ne_nil)
  · intro ts xs rest hby
    cases hby with
    | word _ hlist =>
        have hspelled := hlist.spelled kind_commaToken fun _ x _ _ => hitem x
        exact fun rest => .word (isKeyword_wordToken "BY") (hspelled rest)

-- ── Names ───────────────────────────────────────────────────────────────────

theorem writesName_spellName (name : String) : Spells WritesName spellName name :=
  fun _ => .identifier rfl

/-- With a table it is two names and a dot, without one a single name. -/
theorem writesColumnName_spell (table : Option String) (name : String) (rest : List Token) :
    WritesColumnName (spellColumnName table name rest) table name rest := by
  cases table with
  | none => exact .bare (writesName_spellName name rest)
  | some table =>
      exact .qualified (writesName_spellName table _) rfl (writesName_spellName name rest)

/-- A hint is spelled behind an `@`. -/
theorem writesTable_spell (name : String) (hint : Option String) (rest : List Token) :
    WritesTable (spellTable name hint rest) name hint rest := by
  cases hint with
  | none => exact .bare (writesName_spellName name rest)
  | some index =>
      exact .hinted (writesName_spellName name _) rfl (writesName_spellName index rest)

theorem writesLabel_spell (label : Option String) :
    Spells WritesLabel (spellClause "AS" spellName) label := by
  intro rest
  cases label with
  | none => exact .absent
  | some name => exact .present (isKeyword_wordToken "AS") (writesName_spellName name rest)

-- ── Calls ───────────────────────────────────────────────────────────────────

mutual

/-- By recursion over the derivation, since calls nest. -/
theorem WritesArgument.spelled {ts rest : List Token} {arg : Argument} :
    WritesArgument ts arg rest → Spells WritesArgument spellArgument arg
  | .star _ => fun _ => .star rfl
  | .column _ => fun rest => .column (writesColumnName_spell _ _ rest)
  | .tableStar _ _ _ => fun _ => .tableStar (writesName_spellName _ _) rfl rfl
  | @WritesArgument.call _ name _ _ args _ _ _ hargs => by
      intro rest
      have hcall : WritesArgument (spellArgument (.call (Text.upper name) args) rest)
          (.call (Text.upper (Text.upper name)) args) rest :=
        .call (writesName_spellName _ _) rfl (hargs.spelled rest)
      rw [Text.upper_upper] at hcall
      exact hcall

/-- The arguments of a call, with the closing parenthesis. -/
theorem WritesArguments.spelled {ts rest : List Token} {args : List Argument} :
    WritesArguments ts args rest → Spells WritesArguments spellArguments args
  | .none _ => fun _ => .none rfl
  | .some harg hmore => fun rest => .some (harg.spelled _) (hmore.spelled rest)

theorem WritesMoreArguments.spelled {ts rest : List Token} {args : List Argument} :
    WritesMoreArguments ts args rest → Spells WritesMoreArguments spellMoreArguments args
  | .close _ => fun _ => .close rfl
  | .comma _ harg hmore => fun rest => .comma rfl (harg.spelled _) (hmore.spelled rest)

end

theorem WritesCall.spelled {call : Call} (h : WritesCall ts call rest) :
    Spells WritesCall spellCall call := by
  intro rest
  cases h with
  | @call name _ _ args _ _ _ hargs =>
      have hcall : WritesCall (spellCall ⟨Text.upper name, args⟩ rest)
          ⟨Text.upper (Text.upper name), args⟩ rest :=
        .call (writesName_spellName _ _) rfl (hargs.spelled rest)
      rw [Text.upper_upper] at hcall
      exact hcall

-- ── Columns ─────────────────────────────────────────────────────────────────

/-- One case for each kind of column. -/
theorem WritesColumn.spelled {column : Column} (h : WritesColumn ts column rest) :
    Spells WritesColumn spellColumn column := by
  intro rest
  cases h with
  | field _ _ => exact .field (writesColumnName_spell _ _ _) (writesLabel_spell _ rest)
  | tableStar _ _ _ => exact .tableStar (writesName_spellName _ _) rfl rfl
  | call hcall _ => exact .call (hcall.spelled _) (writesLabel_spell _ rest)

theorem WritesColumns.spelled {columns : List Column} (h : WritesColumns ts columns rest) :
    Spells WritesColumns (spellList commaToken spellColumn) columns := by
  intro rest
  cases h with
  | star _ => exact .star rfl
  | list hlist =>
      have hspelled := hlist.spelled kind_commaToken fun _ _ _ => WritesColumn.spelled
      exact .list (hspelled rest)

-- ── Joins ───────────────────────────────────────────────────────────────────

theorem writesEquality_spell (c : JoinCondition) : Spells WritesEquality spellEquality c :=
  fun rest => .equals (writesColumnName_spell _ _ _) rfl rfl (writesColumnName_spell _ _ rest)

/-- A join is spelled with one word, whether or not it was written with two. -/
theorem WritesJoins.spelled {joins : List Join} (h : WritesJoins ts joins rest) :
    Spells WritesJoins spellJoins joins := by
  induction h with
  | nil => exact fun _ => .nil
  | cons hjoin _ ih =>
      intro rest
      cases hjoin with
      | join _ _ _ hconditions =>
          have hspelled := hconditions.spelled (isKeyword_wordToken "AND")
            (fun _ c _ _ => writesEquality_spell c)
          exact .cons (.join (.join (isKeyword_wordToken "JOIN")) (writesTable_spell _ _ _)
            (isKeyword_wordToken "ON") (hspelled _)) (ih rest)

-- ── Conditions ──────────────────────────────────────────────────────────────

theorem WritesSubject.spelled {subject : Subject} (h : WritesSubject ts subject rest) :
    Spells WritesSubject spellSubject subject := by
  intro rest
  cases h with
  | column _ => exact .column (writesColumnName_spell _ _ rest)
  | call hcall => exact .call (hcall.spelled rest)

theorem ofSymbol?_symbol (op : Operator) : Operator.ofSymbol? op.symbol = some op := by
  cases op <;> rfl

/-- A number is spelled so that it is read back, a text between quotes. -/
theorem WritesLiteral.spelled {t : Token} {value : Value} (h : WritesLiteral t value) :
    WritesLiteral (literalToken value) value := by
  cases h with
  | text _ => exact .text rfl
  | number _ hx => exact .number rfl (Number.ofText?_numeral hx)
  | true _ => exact .true (isKeyword_wordToken "TRUE")
  | false _ => exact .false (isKeyword_wordToken "FALSE")
  | null _ => exact .null (isKeyword_wordToken "NULL")

mutual

/-- A test in parentheses is spelled in parentheses again. -/
theorem WritesTest.spelled {ts rest : List Token} {c : Condition} :
    WritesTest ts c rest → Spells WritesTest spellTest c
  | .compare hsubject _ _ hvalue => fun _ =>
      .compare (hsubject.spelled _) rfl (ofSymbol?_symbol _) hvalue.spelled
  | .parens _ h _ => h.spelled

/-- A conjunction is spelled as one test in parentheses. -/
theorem WritesConjunction.spelled {ts rest : List Token} {c : Condition} :
    WritesConjunction ts c rest → Spells WritesTest spellTest c
  | .test h => h.spelled
  | .and hleft _ hright => fun _ =>
      .parens rfl (.conjunction (.and (.test (hleft.spelled _)) (isKeyword_wordToken "AND")
        (hright.spelled _))) rfl

theorem WritesDisjunction.spelled {ts rest : List Token} {c : Condition} :
    WritesDisjunction ts c rest → Spells WritesTest spellTest c
  | .conjunction h => h.spelled
  | .or hleft _ hright => fun _ =>
      .parens rfl (.or (.conjunction (.test (hleft.spelled _))) (isKeyword_wordToken "OR")
        (.test (hright.spelled _))) rfl

end

-- ── Statements ──────────────────────────────────────────────────────────────

theorem writesGroupKey_spell (key : GroupKey) : Spells WritesGroupKey spellGroupKey key :=
  fun rest => .name (writesColumnName_spell _ _ rest)

/-- The direction is always spelled. -/
theorem writesOrderKey_spell (key : OrderKey) : Spells WritesOrderKey spellOrderKey key := by
  obtain ⟨table, field, direction⟩ := key
  intro rest
  refine .key (writesColumnName_spell _ _ _) ?_
  cases direction with
  | ascending => exact .ascending (isKeyword_wordToken "ASC")
  | descending => exact .descending (isKeyword_wordToken "DESC")

theorem WritesCount.spelled {n : Nat} (h : WritesCount ts n rest) :
    Spells WritesCount spellCount n := by
  cases h with
  | number _ hcount =>
      have hn := Number.le_maxCount_of_countOfText? hcount
      exact fun _ => .number rfl (Number.countOfText?_toString hn)

/-- The clauses of a query are spelled in the order of the grammar. -/
theorem WritesQuery.spelled {s : Select} (h : WritesQuery ts s rest) :
    Spells WritesQuery spellQuery s := by
  intro rest
  have hcondition : ∀ ts c rest, WritesDisjunction ts c rest →
      Spells WritesDisjunction spellTest c :=
    fun _ _ _ hc rest => .conjunction (.test (hc.spelled rest))
  cases h with
  | select _ hcolumns _ _ hjoins hfilter hgroup hhaving horder hlimit =>
      obtain ⟨hgroupOf, hgroup⟩ := hgroup.spelled_by writesGroupKey_spell
      obtain ⟨horderOf, horder⟩ := horder.spelled_by writesOrderKey_spell
      have hfilter := hfilter.spelled hcondition
      have hhaving := hhaving.spelled hcondition
      have hlimit := hlimit.spelled fun _ _ _ => WritesCount.spelled
      rw [spellQuery]
      dsimp only
      rw [hgroupOf, horderOf]
      exact .select (isKeyword_wordToken "SELECT") (hcolumns.spelled _)
        (isKeyword_wordToken "FROM") (writesTable_spell _ _ _) (hjoins.spelled _) (hfilter _)
        (hgroup _) (hhaving _) (horder _) (hlimit rest)

/-- A statement that some tokens write is also written by its spelling. -/
theorem WritesStatement.spelled {s : Select} (h : WritesStatement ts s) :
    WritesStatement s.spelling s := by
  cases h with
  | plain hquery _ => exact .plain (hquery.spelled _) rfl
  | semicolon hquery _ _ => exact .plain (hquery.spelled _) rfl

end Grammar

end DocQuery
