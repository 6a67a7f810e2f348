import DocQuery.Value.Order

/-!
# Statements — a query as a tree

A `Select` names the columns it shows, the table it reads, the tables it joins to that
one, and optionally a condition, groups, a condition on groups, an order and a limit. It is
built once and only its limit is ever written again.

A function call is told apart by its `signature`, the text `NAME(arguments)`; the result of
a call is stored under it.
-/

namespace DocQuery

-- ── Columns and calls ───────────────────────────────────────────────────────

/-- An argument of a function: `*`, a table's `*`, a column or a call. -/
inductive Argument where
  | star
  | tableStar (table : String)
  | column (table : Option String) (name : String)
  | call (name : String) (arguments : List Argument)

mutual

/-- Equality of arguments is decided by their parts. -/
def Argument.decEq : (a b : Argument) → Decidable (a = b)
  | .star, .star => .isTrue rfl
  | .tableStar t, .tableStar u =>
    if h : t = u then .isTrue (by rw [h]) else .isFalse (by simp [h])
  | .column t n, .column u m =>
    if h : t = u ∧ n = m then .isTrue (by rw [h.1, h.2])
    else .isFalse (by simpa using h)
  | .call n as, .call m bs =>
    match instDecidableEqString n m, Argument.decEqAll as bs with
    | .isTrue h, .isTrue k => .isTrue (by rw [h, k])
    | .isFalse h, _ => .isFalse (by simp [h])
    | _, .isFalse k => .isFalse (by simp [k])
  | .star, .tableStar _ | .star, .column _ _ | .star, .call _ _ => .isFalse nofun
  | .tableStar _, .star | .tableStar _, .column _ _ | .tableStar _, .call _ _ => .isFalse nofun
  | .column _ _, .star | .column _ _, .tableStar _ | .column _ _, .call _ _ => .isFalse nofun
  | .call _ _, .star | .call _ _, .tableStar _ | .call _ _, .column _ _ => .isFalse nofun

/-- Equality of argument lists is decided item by item. -/
def Argument.decEqAll : (as bs : List Argument) → Decidable (as = bs)
  | [], [] => .isTrue rfl
  | a :: as, b :: bs =>
    match Argument.decEq a b, Argument.decEqAll as bs with
    | .isTrue h, .isTrue k => .isTrue (by rw [h, k])
    | .isFalse h, _ => .isFalse (by simp [h])
    | _, .isFalse k => .isFalse (by simp [k])
  | [], _ :: _ | _ :: _, [] => .isFalse nofun

end

instance : DecidableEq Argument :=
  Argument.decEq

/-- A function call; its name is in upper case. -/
structure Call where
  name : String
  arguments : List Argument
  deriving DecidableEq

mutual

/-- An argument as a signature shows it. -/
def Argument.render : Argument → String
  | .star => "*"
  | .tableStar table => table ++ ".*"
  | .column (some table) name => table ++ "." ++ name
  | .column none name => name
  | .call name arguments => name ++ "(" ++ Argument.renderAll arguments ++ ")"

/-- Arguments as a signature shows them, with a comma and a space between two. -/
def Argument.renderAll : List Argument → String
  | [] => ""
  | [a] => a.render
  | a :: as => a.render ++ ", " ++ Argument.renderAll as

end

/-- The text of a call, under which its result is stored. -/
def Call.signature (call : Call) : String :=
  call.name ++ "(" ++ Argument.renderAll call.arguments ++ ")"

/-- A selected column. -/
inductive Column where
  | star
  | tableStar (table : String)
  | field (table : Option String) (name : String) (label : Option String)
  | call (call : Call) (label : Option String)
  deriving DecidableEq

namespace Column

/-- The column is a function call. -/
def isCall : Column → Bool
  | .call _ _ => true
  | _ => false

/-- The call of a function column. -/
def call? : Column → Option Call
  | .call c _ => some c
  | _ => none

/-- The name of the column in a result row; `*` has none of its own. -/
def outputName? : Column → Option String
  | .star => none
  | .tableStar _ => none
  | .field _ name label => some (label.getD name)
  | .call c label => some (label.getD c.signature)

/-- The column as an argument would be shown, without its label. -/
def render : Column → String
  | .star => Argument.star.render
  | .tableStar table => (Argument.tableStar table).render
  | .field table name _ => (Argument.column table name).render
  | .call c _ => c.signature

end Column

-- ── Conditions ──────────────────────────────────────────────────────────────

/-- A comparison operator. -/
inductive Operator where
  | eq
  | notEq
  | gt
  | lt
  | gtEq
  | ltEq
  deriving DecidableEq

namespace Operator

/-- The operator that a sign stands for. -/
def ofSymbol? : String → Option Operator
  | "=" => some .eq
  | "!=" => some .notEq
  | ">" => some .gt
  | "<" => some .lt
  | ">=" => some .gtEq
  | "<=" => some .ltEq
  | _ => none

/-- The sign of an operator. -/
def symbol : Operator → String
  | .eq => "="
  | .notEq => "!="
  | .gt => ">"
  | .lt => "<"
  | .gtEq => ">="
  | .ltEq => "<="

/-- The operator asks for an order. -/
def isRange : Operator → Bool
  | .eq | .notEq => false
  | _ => true

/-- The comparison of two values. Null equals null, and an order holds only between two
    values of one type other than null. -/
def holds (op : Operator) (left right : Value) : Bool :=
  match op with
  | .eq => left.equal right
  | .notEq => !left.equal right
  | .gt => left.compare? right == some .gt
  | .lt => left.compare? right == some .lt
  | .gtEq => left.compare? right == some .gt || left.compare? right == some .eq
  | .ltEq => left.compare? right == some .lt || left.compare? right == some .eq

end Operator

/-- What a comparison reads: a column, or the result of a call. -/
inductive Subject where
  | column (table : Option String) (field : String)
  | call (call : Call)
  deriving DecidableEq

namespace Subject

/-- The table a column is qualified by. -/
def table? : Subject → Option String
  | .column table _ => table
  | .call _ => none

/-- The name under which a row holds the subject: a call's is its signature. -/
def field : Subject → String
  | .column _ field => field
  | .call c => c.signature

/-- The call of a subject that is one. -/
def call? : Subject → Option Call
  | .column _ _ => none
  | .call c => some c

end Subject

/-- A comparison of a subject with a literal. -/
structure Comparison where
  subject : Subject
  operator : Operator
  value : Value
  deriving DecidableEq

/-- A condition on a row. -/
inductive Condition where
  | and (left right : Condition)
  | or (left right : Condition)
  | compare (comparison : Comparison)
  deriving DecidableEq

namespace Condition

/-- The operands of the conjunctions at the top, from left to right. -/
def conjuncts : Condition → List Condition
  | .and left right => left.conjuncts ++ right.conjuncts
  | c => [c]

/-- The conjunction of conditions, nested to the left; of none there is none. -/
def all? : List Condition → Option Condition
  | [] => none
  | c :: cs => some (cs.foldl .and c)

/-- The comparisons of a condition, from left to right. -/
def comparisons : Condition → List Comparison
  | .and left right => left.comparisons ++ right.comparisons
  | .or left right => left.comparisons ++ right.comparisons
  | .compare c => [c]

/-- The calls of a condition, from left to right. -/
def calls (c : Condition) : List Call :=
  c.comparisons.filterMap (·.subject.call?)

/-- A comparison of the condition reads a call. -/
def containsCall (c : Condition) : Bool :=
  c.comparisons.any (·.subject.call?.isSome)

end Condition

-- ── Clauses ─────────────────────────────────────────────────────────────────

/-- An equality between columns of two tables. -/
structure JoinCondition where
  leftTable : String
  leftField : String
  rightTable : String
  rightField : String
  deriving DecidableEq

/-- The same equality with its sides exchanged. -/
def JoinCondition.flipped (c : JoinCondition) : JoinCondition :=
  ⟨c.rightTable, c.rightField, c.leftTable, c.leftField⟩

/-- A table to join, the index to read it by, and the equalities to join it on. -/
structure Join where
  table : String
  indexHint : Option String
  conditions : List JoinCondition
  deriving DecidableEq

/-- The direction of an order. -/
inductive Direction where
  | ascending
  | descending
  deriving DecidableEq

/-- A column to order by. -/
structure OrderKey where
  table : Option String
  field : String
  direction : Direction
  deriving DecidableEq

/-- A column to group by. -/
structure GroupKey where
  table : Option String
  field : String
  deriving DecidableEq

/-- A query. -/
structure Select where
  columns : List Column
  source : String
  indexHint : Option String
  joins : List Join
  filter : Option Condition
  groupBy : List GroupKey
  having : Option Condition
  orderBy : List OrderKey
  limit : Option Nat
  deriving DecidableEq

namespace Select

/-- The query groups its rows. -/
def isGrouped (s : Select) : Bool :=
  !s.groupBy.isEmpty

/-- The query selects calls only and has no groups: all rows make up one result row. -/
def isAggregateOnly (s : Select) : Bool :=
  s.groupBy.isEmpty && !s.columns.isEmpty && s.columns.all Column.isCall

/-- The query shows rows as they are. -/
def isPlain (s : Select) : Bool :=
  !s.isGrouped && !s.isAggregateOnly

/-- The tables the query reads, in order. -/
def tables (s : Select) : List String :=
  s.source :: s.joins.map Join.table

/-- The calls that the query selects. -/
def selectedCalls (s : Select) : List Call :=
  s.columns.filterMap Column.call?

/-- The calls that its condition on groups reads. -/
def havingCalls (s : Select) : List Call :=
  (s.having.map Condition.calls).getD []

end Select

end DocQuery
