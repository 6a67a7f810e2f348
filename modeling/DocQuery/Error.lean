import DocQuery.Token.Basic

/-!
# Errors — why a query fails

`QueryError` has one constructor for each cause and `message` is the only place with
wording. The kind of an error groups the causes for hosts that only need to know which
part of the work refused. `StoreError` is what a store reports; a query that meets one
fails with the same cause, so a table that vanished reads like one that never was there.
A run can also end without a cause: a sort that meets an order which contradicts itself panics.
-/

namespace DocQuery

-- ── What a store reports ────────────────────────────────────────────────────

/-- Why a store refuses. -/
inductive StoreError where
  | tableNotFound (table : String)
  | indexNotFound (table index : String)
  | fieldNotIndexed (table index field : String)
  | unavailable
  deriving DecidableEq

/-- The wording of a store's refusal. -/
def StoreError.message : StoreError → String
  | .tableNotFound table => "Table '" ++ table ++ "' does not exist"
  | .indexNotFound table index =>
    "Index '" ++ index ++ "' does not exist on table '" ++ table ++ "'"
  | .fieldNotIndexed table index field =>
    "Field '" ++ field ++ "' is not part of index '" ++ index ++ "' on table '" ++ table ++ "'"
  | .unavailable => "schema unavailable"

-- ── Why a query fails ───────────────────────────────────────────────────────

/-- The part of the work that refused. -/
inductive ErrorKind where
  | lexical
  | syntactic
  | unsupportedCommand
  | schema
  | plan
  | semantic
  | limit
  | storage
  deriving DecidableEq

/-- The name under which a kind is reported. -/
def ErrorKind.name : ErrorKind → String
  | .lexical => "LexicalError"
  | .syntactic => "SyntaxError"
  | .unsupportedCommand => "UnsupportedCommandError"
  | .schema => "SchemaError"
  | .plan => "PlanError"
  | .semantic => "SemanticError"
  | .limit => "LimitError"
  | .storage => "StorageError"

/-- What may stand at a place of a query where something else stood. -/
inductive Expectation where
  | keyword (word : String)
  | identifier
  | rightParen
  | qualifyingDot
  | joinEquals
  | comparisonOperator
  | literal
  | number
  | limitCount
  | endOfInput
  deriving DecidableEq

/-- The wording of an expectation. -/
def Expectation.text : Expectation → String
  | .keyword word => word
  | .identifier => "identifier"
  | .rightParen => "')'"
  | .qualifyingDot => "'.' (join columns must be table-qualified)"
  | .joinEquals => "'=' in JOIN condition"
  | .comparisonOperator => "comparison operator"
  | .literal => "literal value"
  | .number => "number"
  | .limitCount => "non-negative integer after LIMIT"
  | .endOfInput => "end of input"

/-- Why a query fails, by cause. -/
inductive QueryError where
  | unexpectedCharacter (c : Char) (position : Nat)
  | unterminatedString (position : Nat)
  | unexpectedToken (expected : Expectation) (found : Token)
  | emptyQuery
  | writeNotSupported (command : String)
  | unsupportedCommand (command : String)
  | tableNotFound (table : String)
  | indexNotFound (table index : String)
  | missingLeadingCondition (index field : String)
  | rangeNotLast (index field : String)
  | notGrouped (field : String)
  | unknownFunction (name : String)
  | wrongArgumentCount (name : String) (found : Nat)
  | argumentNotAccepted (name argument : String)
  | noCurrentRow (call : String)
  | rowFunctionInAggregate (call : String)
  | functionInWhere
  | mixedSelection
  | havingWithoutGroups
  | starWithGroups
  | repeatedTable (table : String)
  | unknownQualifier (table : String)
  | joinedTooLate (table : String)
  | limitRequired (table : String) (maxLimit : Nat)
  | limitExceeded (limit maxLimit : Nat)
  | storage (message : String)
  deriving DecidableEq

namespace QueryError

/-- The part of the work that a cause belongs to. -/
def kind : QueryError → ErrorKind
  | .unexpectedCharacter _ _ | .unterminatedString _ => .lexical
  | .unexpectedToken _ _ | .emptyQuery => .syntactic
  | .writeNotSupported _ | .unsupportedCommand _ => .unsupportedCommand
  | .tableNotFound _ | .indexNotFound _ _ => .schema
  | .missingLeadingCondition _ _ | .rangeNotLast _ _ => .plan
  | .limitRequired _ _ | .limitExceeded _ _ => .limit
  | .storage _ => .storage
  | _ => .semantic

/-- The wording of a cause within the meaning of a query. -/
def meaning : QueryError → String
  | .functionInWhere => "Aggregate functions are not allowed in WHERE; use HAVING"
  | .mixedSelection => "Cannot mix aggregate functions and plain columns without GROUP BY"
  | .havingWithoutGroups => "HAVING requires GROUP BY or an aggregate"
  | .starWithGroups => "Cannot use * with GROUP BY"
  | .argumentNotAccepted name argument =>
    "Function " ++ name ++ " does not accept argument '" ++ argument ++ "'"
  | .noCurrentRow call => call ++ " requires a current row"
  | .rowFunctionInAggregate call =>
    call ++ " needs a current row and cannot be used in an aggregate-only query"
  | .repeatedTable table => "Table '" ++ table ++ "' appears more than once"
  | .unknownQualifier table => "Unknown table '" ++ table ++ "' referenced in query"
  | .joinedTooLate table =>
    "Join condition references table '" ++ table ++ "' before it is joined"
  | _ => ""

/-- The wording of a cause. -/
def message : QueryError → String
  | .unexpectedCharacter c position =>
    "Unexpected character '" ++ c.toString ++ "' at position " ++ toString position
  | .unterminatedString position =>
    "Unterminated string starting at position " ++ toString position
  | .unexpectedToken expected found =>
    "Syntax error at position " ++ toString found.offset ++ ": expected " ++ expected.text
      ++ ", found " ++ found.describe
  | .emptyQuery => "Empty query"
  | .writeNotSupported command => "Write operations are not supported: " ++ command
  | .unsupportedCommand command =>
    "Unsupported command: " ++ command ++ " (only SELECT queries are supported)"
  | .tableNotFound table => (StoreError.tableNotFound table).message
  | .indexNotFound table index => (StoreError.indexNotFound table index).message
  | .missingLeadingCondition index field =>
    "Index '" ++ index ++ "' requires condition on prefix column '" ++ field ++ "'"
  | .rangeNotLast index field =>
    "Index '" ++ index ++ "': range condition on '" ++ field
      ++ "' is only allowed on the last constrained index column"
  | .notGrouped field =>
    "Column '" ++ field ++ "' must appear in GROUP BY or aggregate function"
  | .unknownFunction name => "Unknown function: " ++ name
  | .wrongArgumentCount name found =>
    "Function " ++ name ++ " expects 1 argument, got " ++ toString found ++ " argument(s)"
  | .limitRequired table maxLimit =>
    "Query on table '" ++ table ++ "' requires a LIMIT clause (maximum LIMIT is "
      ++ toString maxLimit ++ ")"
  | .limitExceeded limit maxLimit =>
    "LIMIT " ++ toString limit ++ " exceeds maximum allowed LIMIT of " ++ toString maxLimit
  | .storage message => "Storage error: " ++ message
  | e => "Semantic error: " ++ e.meaning

/-- The cause for which a query fails when its store refuses. -/
def ofStore : StoreError → QueryError
  | .tableNotFound table => .tableNotFound table
  | .indexNotFound table index => .indexNotFound table index
  | e => .storage e.message

end QueryError

-- ── Why there is no result ──────────────────────────────────────────────────

/-- Why a run gives no result: it is refused for a cause, or a sort panics. -/
inductive Failure (ε : Type) where
  | refused (cause : ε)
  | panicked
  deriving DecidableEq

/-- What a run gives in the end. -/
abbrev Outcome (ε α : Type) :=
  Except (Failure ε) α

namespace Outcome

variable {ε α : Type}

/-- What can only be refused. -/
def ofChecked (x : Except ε α) : Outcome ε α :=
  x.mapError .refused

/-- What a sort gives, unless it panics. -/
def ofSort : Option α → Outcome ε α
  | none => .error .panicked
  | some a => .ok a

end Outcome

end DocQuery
