import DocQuery.Number.Numeral
import DocQuery.Statement.Basic
import DocQuery.Taken
import DocQuery.Token.Lexer

/-!
# Reading a statement

`Select.ofTokens` reads the grammar

    query      = SELECT columns FROM table join* [WHERE or] [GROUP BY names] [HAVING or]
                 [ORDER BY keys] [LIMIT count] [;] end
    columns    = * | column (, column)*
    column     = name (arguments) [AS name] | name . * | [name .] name [AS name]
    arguments  = [argument (, argument)*]
    table      = name [@ name]
    join       = [INNER] JOIN table ON equality (AND equality)*
    or         = and (OR and)*
    and        = test (AND test)*
    test       = ( or ) | subject operator literal

Each function reads one nonterminal from the front of the tokens and leaves a shorter
rest. Where it stops, it says what would have gone on there, and keeps the tokens from the
wrong one on. `Select.ofText` cuts a text into tokens and reads those.
-/

namespace DocQuery

namespace Grammar

-- ── Steps ───────────────────────────────────────────────────────────────────

/-- Where reading stopped: what was expected, and the tokens from there on. -/
structure Stop where
  expected : Expectation
  rest : List Token

/-- A reading step that leaves fewer than `bound` tokens, or the place where it stopped. -/
abbrev Parsed (α : Type) (bound : Nat) : Type :=
  Except Stop (Taken α Token bound)

/-- Takes the first token if it passes a test. -/
def next? (test : Token → Bool) : (ts : List Token) → Option (Taken Token Token ts.length)
  | [] => none
  | t :: ts => if test t then some ⟨t, ts, Nat.lt_succ_self _⟩ else none

/-- Takes the first token if it has the kind. -/
def kind? (kind : TokenKind) (ts : List Token) : Option (Taken Token Token ts.length) :=
  next? (fun t => t.kind == kind) ts

/-- Takes the first token if it is the keyword. -/
def keyword? (word : String) (ts : List Token) : Option (Taken Token Token ts.length) :=
  next? (fun t => t.isKeyword word) ts

/-- Takes a token of a kind and gives its text. -/
def kind (kind : TokenKind) (expected : Expectation) (ts : List Token) :
    Parsed String ts.length :=
  match kind? kind ts with
  | some t => .ok (t.map Token.text)
  | none => .error ⟨expected, ts⟩

/-- Takes a keyword. -/
def keyword (word : String) (ts : List Token) : Parsed Token ts.length :=
  match keyword? word ts with
  | some t => .ok t
  | none => .error ⟨.keyword word, ts⟩

/-- Takes an identifier. -/
def identifier (ts : List Token) : Parsed String ts.length :=
  kind .identifier .identifier ts

/-- One or more items with a separator between two. -/
def separated {α : Type} (separator : (ts : List Token) → Option (Taken Token Token ts.length))
    (item : (ts : List Token) → Parsed α ts.length) (ts : List Token) :
    Parsed (List α) ts.length := do
  let first ← item ts
  match separator first.rest with
  | none => .ok (first.map ([·]))
  | some sep => do
    let others ← separated separator item sep.rest
    .ok ⟨first.value :: others.value, others.rest, by
      have := first.shorter; have := sep.shorter; have := others.shorter; omega⟩
termination_by ts.length
decreasing_by have := first.shorter; have := sep.shorter; omega

/-- Items with commas between them. -/
def list {α : Type} (item : (ts : List Token) → Parsed α ts.length) (ts : List Token) :
    Parsed (List α) ts.length :=
  separated (kind? .comma) item ts

/-- A part that is there if its keyword is. -/
def clause? {α : Type} (word : String) (body : (ts : List Token) → Parsed α ts.length)
    (ts : List Token) : Parsed (Option α) (ts.length + 1) :=
  match keyword? word ts with
  | none => .ok ⟨none, ts, Nat.lt_succ_self _⟩
  | some k => do
    let b ← body k.rest
    .ok ⟨some b.value, b.rest, by have := k.shorter; have := b.shorter; omega⟩

-- ── Names ───────────────────────────────────────────────────────────────────

/-- A name that may be qualified by a table. -/
def columnName (ts : List Token) : Parsed (Option String × String) ts.length := do
  let name ← identifier ts
  match kind? .dot name.rest with
  | none => .ok (name.map fun n => (none, n))
  | some dot => do
    let field ← identifier dot.rest
    .ok ⟨(some name.value, field.value), field.rest, by
      have := name.shorter; have := dot.shorter; have := field.shorter; omega⟩

/-- A table and the index to read it by. -/
def table (ts : List Token) : Parsed (String × Option String) ts.length := do
  let name ← identifier ts
  match kind? .at name.rest with
  | none => .ok (name.map fun n => (n, none))
  | some sign => do
    let index ← identifier sign.rest
    .ok ⟨(name.value, some index.value), index.rest, by
      have := name.shorter; have := sign.shorter; have := index.shorter; omega⟩

/-- The name that a column is shown under, after `AS`. -/
def label? (ts : List Token) : Parsed (Option String) (ts.length + 1) :=
  clause? "AS" identifier ts

-- ── Calls ───────────────────────────────────────────────────────────────────

mutual

/-- An argument of a call. -/
def argument (ts : List Token) : Parsed Argument ts.length :=
  match kind? .star ts with
  | some star => .ok (star.map fun _ => .star)
  | none => do
    let name ← identifier ts
    match kind? .leftParen name.rest with
    | some paren => do
      let args ← arguments paren.rest
      .ok ⟨.call (Text.upper name.value) args.value, args.rest, by
        have := name.shorter; have := paren.shorter; have := args.shorter; omega⟩
    | none =>
      match kind? .dot name.rest with
      | none => .ok (name.map (.column none))
      | some dot =>
        match kind? .star dot.rest with
        | some star => .ok ⟨.tableStar name.value, star.rest, by
            have := name.shorter; have := dot.shorter; have := star.shorter; omega⟩
        | none => do
          let field ← identifier dot.rest
          .ok ⟨.column (some name.value) field.value, field.rest, by
            have := name.shorter; have := dot.shorter; have := field.shorter; omega⟩
termination_by 2 * ts.length
decreasing_by have := name.shorter; have := paren.shorter; omega

/-- The arguments of a call after its opening parenthesis, and the closing one. -/
def arguments (ts : List Token) : Parsed (List Argument) ts.length :=
  match kind? .rightParen ts with
  | some paren => .ok (paren.map fun _ => [])
  | none => do
    let first ← argument ts
    let others ← moreArguments first.rest
    .ok ⟨first.value :: others.value, others.rest, by
      have := first.shorter; have := others.shorter; omega⟩
termination_by 2 * ts.length + 1
decreasing_by
  · omega
  · have := first.shorter; omega

/-- The arguments of a call after one of them, and the closing parenthesis. -/
def moreArguments (ts : List Token) : Parsed (List Argument) ts.length :=
  match kind? .comma ts with
  | some comma => do
    let next ← argument comma.rest
    let others ← moreArguments next.rest
    .ok ⟨next.value :: others.value, others.rest, by
      have := comma.shorter; have := next.shorter; have := others.shorter; omega⟩
  | none => do
    let paren ← kind .rightParen .rightParen ts
    .ok (paren.map fun _ => [])
termination_by 2 * ts.length + 1
decreasing_by
  · have := comma.shorter; omega
  · have := comma.shorter; have := next.shorter; omega

end

-- ── Columns ─────────────────────────────────────────────────────────────────

/-- A selected column. -/
def column (ts : List Token) : Parsed Column ts.length := do
  let name ← identifier ts
  match kind? .leftParen name.rest with
  | some paren => do
    let args ← arguments paren.rest
    let label ← label? args.rest
    .ok ⟨.call ⟨Text.upper name.value, args.value⟩ label.value, label.rest, by
      have := name.shorter; have := paren.shorter
      have := args.shorter; have := label.shorter; omega⟩
  | none =>
    match kind? .dot name.rest with
    | none => do
      let label ← label? name.rest
      .ok ⟨.field none name.value label.value, label.rest, by
        have := name.shorter; have := label.shorter; omega⟩
    | some dot =>
      match kind? .star dot.rest with
      | some star => .ok ⟨.tableStar name.value, star.rest, by
          have := name.shorter; have := dot.shorter; have := star.shorter; omega⟩
      | none => do
        let field ← identifier dot.rest
        let label ← label? field.rest
        .ok ⟨.field (some name.value) field.value label.value, label.rest, by
          have := name.shorter; have := dot.shorter
          have := field.shorter; have := label.shorter; omega⟩

/-- The selected columns: a star on its own, or a list. -/
def columns (ts : List Token) : Parsed (List Column) ts.length :=
  match kind? .star ts with
  | some star => .ok (star.map fun _ => [.star])
  | none => list column ts

-- ── Joins ───────────────────────────────────────────────────────────────────

/-- A name qualified by its table. -/
def qualifiedName (ts : List Token) : Parsed (String × String) ts.length := do
  let table ← identifier ts
  let dot ← kind .dot .qualifyingDot table.rest
  let field ← identifier dot.rest
  .ok ⟨(table.value, field.value), field.rest, by
    have := table.shorter; have := dot.shorter; have := field.shorter; omega⟩

/-- An equality of two qualified names. -/
def equality (ts : List Token) : Parsed JoinCondition ts.length := do
  let left ← qualifiedName ts
  match next? (fun t => t.kind == .operator && t.text == "=") left.rest with
  | none => .error ⟨.joinEquals, left.rest⟩
  | some sign => do
    let right ← qualifiedName sign.rest
    .ok ⟨⟨left.value.1, left.value.2, right.value.1, right.value.2⟩, right.rest, by
      have := left.shorter; have := sign.shorter; have := right.shorter; omega⟩

/-- A joined table after the word `JOIN`. -/
def join (ts : List Token) : Parsed Join ts.length := do
  let table ← table ts
  let on ← keyword "ON" table.rest
  let conditions ← separated (keyword? "AND") equality on.rest
  .ok ⟨⟨table.value.1, table.value.2, conditions.value⟩, conditions.rest, by
    have := table.shorter; have := on.shorter; have := conditions.shorter; omega⟩

/-- The words before a joined table: `JOIN` or `INNER JOIN`, or neither. -/
def joinWords? (ts : List Token) : Except Stop (Option (Taken Token Token ts.length)) :=
  match keyword? "INNER" ts with
  | none => .ok (keyword? "JOIN" ts)
  | some inner => do
    let word ← keyword "JOIN" inner.rest
    .ok (some (word.widen (Nat.le_of_lt inner.shorter)))

/-- The joined tables. -/
def joins (ts : List Token) : Parsed (List Join) (ts.length + 1) := do
  match ← joinWords? ts with
  | none => .ok ⟨[], ts, Nat.lt_succ_self _⟩
  | some word => do
    let first ← join word.rest
    let others ← joins first.rest
    .ok ⟨first.value :: others.value, others.rest, by
      have := word.shorter; have := first.shorter; have := others.shorter; omega⟩
termination_by ts.length
decreasing_by have := word.shorter; have := first.shorter; omega

-- ── Conditions ──────────────────────────────────────────────────────────────

/-- What a comparison reads. -/
def subject (ts : List Token) : Parsed Subject ts.length := do
  let name ← identifier ts
  match kind? .leftParen name.rest with
  | some paren => do
    let args ← arguments paren.rest
    .ok ⟨.call ⟨Text.upper name.value, args.value⟩, args.rest, by
      have := name.shorter; have := paren.shorter; have := args.shorter; omega⟩
  | none =>
    match kind? .dot name.rest with
    | none => .ok (name.map (.column none))
    | some dot => do
      let field ← identifier dot.rest
      .ok ⟨.column (some name.value) field.value, field.rest, by
        have := name.shorter; have := dot.shorter; have := field.shorter; omega⟩

/-- A comparison operator. -/
def operator (ts : List Token) : Parsed Operator ts.length :=
  match kind? .operator ts with
  | none => .error ⟨.comparisonOperator, ts⟩
  | some sign =>
    match Operator.ofSymbol? sign.value.text with
    | none => .error ⟨.comparisonOperator, ts⟩
    | some op => .ok (sign.map fun _ => op)

/-- The value of a token that is a literal. -/
def literalOf (t : Token) : Except Expectation Value :=
  match t.kind with
  | .string => .ok (.text t.text)
  | .number =>
    match Number.ofText? t.text with
    | some x => .ok (.number x)
    | none => .error .number
  | .keyword =>
    if t.text = "TRUE" then .ok (.boolean true)
    else if t.text = "FALSE" then .ok (.boolean false)
    else if t.text = "NULL" then .ok .null
    else .error .literal
  | _ => .error .literal

/-- A literal. -/
def literal : (ts : List Token) → Parsed Value ts.length
  | [] => .error ⟨.literal, []⟩
  | t :: ts =>
    match literalOf t with
    | .ok v => .ok ⟨v, ts, Nat.lt_succ_self _⟩
    | .error expected => .error ⟨expected, t :: ts⟩

mutual

/-- A comparison, or a condition in parentheses. -/
def test (ts : List Token) : Parsed Condition ts.length :=
  match kind? .leftParen ts with
  | some paren => do
    let inner ← disjunction paren.rest
    let close ← kind .rightParen .rightParen inner.rest
    .ok ⟨inner.value, close.rest, by
      have := paren.shorter; have := inner.shorter; have := close.shorter; omega⟩
  | none => do
    let subject ← subject ts
    let operator ← operator subject.rest
    let value ← literal operator.rest
    .ok ⟨.compare ⟨subject.value, operator.value, value.value⟩, value.rest, by
      have := subject.shorter; have := operator.shorter; have := value.shorter; omega⟩
termination_by 4 * ts.length
decreasing_by have := paren.shorter; omega

/-- Tests joined by `AND`, nested to the left. -/
def conjunction (ts : List Token) : Parsed Condition ts.length := do
  let first ← test ts
  let whole ← conjunctionFrom first.value first.rest
  .ok (whole.widen first.shorter)
termination_by 4 * ts.length + 1
decreasing_by
  · omega
  · have := first.shorter; omega

/-- A conjunction that has been read so far, and the tests that still belong to it. -/
def conjunctionFrom (left : Condition) (ts : List Token) : Parsed Condition (ts.length + 1) :=
  match keyword? "AND" ts with
  | none => .ok ⟨left, ts, Nat.lt_succ_self _⟩
  | some word => do
    let right ← test word.rest
    let whole ← conjunctionFrom (.and left right.value) right.rest
    .ok (whole.widen (by have := word.shorter; have := right.shorter; omega))
termination_by 4 * ts.length + 2
decreasing_by
  · have := word.shorter; omega
  · have := word.shorter; have := right.shorter; omega

/-- Conjunctions joined by `OR`, nested to the left. -/
def disjunction (ts : List Token) : Parsed Condition ts.length := do
  let first ← conjunction ts
  let whole ← disjunctionFrom first.value first.rest
  .ok (whole.widen first.shorter)
termination_by 4 * ts.length + 2
decreasing_by
  · omega
  · have := first.shorter; omega

/-- A disjunction that has been read so far, and the conjunctions that still belong to
    it. -/
def disjunctionFrom (left : Condition) (ts : List Token) : Parsed Condition (ts.length + 1) :=
  match keyword? "OR" ts with
  | none => .ok ⟨left, ts, Nat.lt_succ_self _⟩
  | some word => do
    let right ← conjunction word.rest
    let whole ← disjunctionFrom (.or left right.value) right.rest
    .ok (whole.widen (by have := word.shorter; have := right.shorter; omega))
termination_by 4 * ts.length + 3
decreasing_by
  · have := word.shorter; omega
  · have := word.shorter; have := right.shorter; omega

end

-- ── Groups, order and limit ─────────────────────────────────────────────────

/-- The word `BY` and what follows it. -/
def afterBy {α : Type} (body : (ts : List Token) → Parsed α ts.length) (ts : List Token) :
    Parsed α ts.length := do
  let word ← keyword "BY" ts
  let b ← body word.rest
  .ok (b.widen (Nat.le_of_lt word.shorter))

/-- A column to group by. -/
def groupKey (ts : List Token) : Parsed GroupKey ts.length := do
  let name ← columnName ts
  .ok (name.map fun n => ⟨n.1, n.2⟩)

/-- A direction, ascending if none is written. -/
def direction (ts : List Token) : Taken Direction Token (ts.length + 1) :=
  match keyword? "DESC" ts with
  | some word => (word.map fun _ => .descending).widen (Nat.le_succ _)
  | none =>
    match keyword? "ASC" ts with
    | some word => (word.map fun _ => .ascending).widen (Nat.le_succ _)
    | none => ⟨.ascending, ts, Nat.lt_succ_self _⟩

/-- A column to order by. -/
def orderKey (ts : List Token) : Parsed OrderKey ts.length := do
  let name ← columnName ts
  let way := direction name.rest
  .ok ⟨⟨name.value.1, name.value.2, way.value⟩, way.rest, by
    have := name.shorter; have := way.shorter; omega⟩

/-- The count after `LIMIT`. -/
def limitCount : (ts : List Token) → Parsed Nat ts.length
  | [] => .error ⟨.limitCount, []⟩
  | t :: ts =>
    match t.kind, Number.countOfText? t.text with
    | .number, some n => .ok ⟨n, ts, Nat.lt_succ_self _⟩
    | _, _ => .error ⟨.limitCount, t :: ts⟩

-- ── Queries ─────────────────────────────────────────────────────────────────

/-- A query up to its limit. -/
def query (ts : List Token) : Parsed Select ts.length := do
  let word ← keyword "SELECT" ts
  let columns ← columns word.rest
  let fromWord ← keyword "FROM" columns.rest
  let table ← table fromWord.rest
  let joins ← joins table.rest
  let filter ← clause? "WHERE" disjunction joins.rest
  let groupBy ← clause? "GROUP" (afterBy (list groupKey)) filter.rest
  let having ← clause? "HAVING" disjunction groupBy.rest
  let orderBy ← clause? "ORDER" (afterBy (list orderKey)) having.rest
  let limit ← clause? "LIMIT" limitCount orderBy.rest
  .ok ⟨{ columns := columns.value
         source := table.value.1
         indexHint := table.value.2
         joins := joins.value
         filter := filter.value
         groupBy := groupBy.value.getD []
         having := having.value
         orderBy := orderBy.value.getD []
         limit := limit.value }, limit.rest, by
    have := word.shorter; have := columns.shorter; have := fromWord.shorter
    have := table.shorter; have := joins.shorter; have := filter.shorter
    have := groupBy.shorter; have := having.shorter; have := orderBy.shorter
    have := limit.shorter
    omega⟩

/-- The end of the input, after at most one semicolon. -/
def finish (ts : List Token) : Except Stop Unit :=
  let rest := match kind? .semicolon ts with
    | some sign => sign.rest
    | none => ts
  match rest with
  | [] => .ok ()
  | t :: _ => if t.kind = .endOfInput then .ok () else .error ⟨.endOfInput, rest⟩

/-- A query and nothing after it. -/
def whole (ts : List Token) : Except Stop Select := do
  let q ← query ts
  finish q.rest
  .ok q.value

end Grammar

namespace Select

/-- The end of the input, where the tokens do not say it themselves. -/
def endOf (ts : List Token) : Token :=
  match ts.getLast? with
  | none => ⟨.endOfInput, "", 0⟩
  | some t => ⟨.endOfInput, "", t.offset + t.text.utf8ByteSize⟩

/-- The error of reading that stopped. -/
def stopped (ts : List Token) (stop : Grammar.Stop) : QueryError :=
  .unexpectedToken stop.expected (stop.rest.head?.getD (endOf ts))

/-- The reason not to read a query, if its first token is not `SELECT`. -/
def refusal? (ts : List Token) : Option QueryError :=
  let first := ts.head?.getD (endOf ts)
  if first.kind = .endOfInput then some .emptyQuery
  else if first.isKeyword "SELECT" then none
  else if first.kind = .keyword ∨ first.kind = .identifier then
    let command := Text.upper first.text
    if Token.writeCommands.contains command then some (.writeNotSupported command)
    else some (.unsupportedCommand command)
  else some (stopped ts ⟨.keyword "SELECT", ts⟩)

/-- The query that tokens write. -/
def ofTokens (ts : List Token) : Except QueryError Select :=
  match refusal? ts with
  | some e => .error e
  | none => (Grammar.whole ts).mapError (stopped ts)

/-- The query that a text writes. -/
def ofText (source : String) : Except QueryError Select := do
  ofTokens (← Token.ofText source)

end Select

end DocQuery
