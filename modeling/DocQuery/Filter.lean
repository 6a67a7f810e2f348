import DocQuery.Statement.Basic
import DocQuery.Row

/-!
# Filters — conditions on stored rows

A filter is a condition as a store tests it: its field names are those of the stored rows,
without a table. `Condition.toFilter` drops the qualifiers, which is right for a condition
that reads one table only.
-/

namespace DocQuery

/-- A condition on stored rows. -/
inductive Filter where
  | compare (field : String) (operator : Operator) (value : Value)
  | and (left right : Filter)
  | or (left right : Filter)
  deriving DecidableEq

namespace Filter

/-- The row passes the filter; a missing field is null. -/
def holds (row : Row) : Filter → Bool
  | .compare field operator value => operator.holds (row.value field) value
  | .and left right => left.holds row && right.holds row
  | .or left right => left.holds row || right.holds row

/-- The conjunction of filters, nested to the left; of none there is none. -/
def all? : List Filter → Option Filter
  | [] => none
  | f :: fs => some (fs.foldl .and f)

/-- The fields that the filter reads, from left to right. -/
def fields : Filter → List String
  | .compare field _ _ => [field]
  | .and left right => left.fields ++ right.fields
  | .or left right => left.fields ++ right.fields

/-- The name of an operator's function form. -/
def functionName : Operator → String
  | .eq => "eq"
  | .notEq => "neq"
  | .gt => "gt"
  | .lt => "lt"
  | .gtEq => "gte"
  | .ltEq => "lte"

/-- The filter in function form, a field in brackets and a value as displayed. -/
def render : Filter → String
  | .compare field operator value =>
    functionName operator ++ "([" ++ field ++ "], " ++ value.display ++ ")"
  | .and left right => "and(" ++ left.render ++ ", " ++ right.render ++ ")"
  | .or left right => "or(" ++ left.render ++ ", " ++ right.render ++ ")"

end Filter

namespace Condition

/-- The condition as a filter of the one table that it reads. -/
def toFilter : Condition → Filter
  | .and left right => .and left.toFilter right.toFilter
  | .or left right => .or left.toFilter right.toFilter
  | .compare c => .compare c.subject.field c.operator c.value

/-- The conjunction of conditions as a filter. -/
def toFilter? (conditions : List Condition) : Option Filter :=
  Filter.all? (conditions.map toFilter)

/-- The row, stored or joined, meets the condition. A missing field is null. -/
def holds (row : Row) (defaultTable : String) : Condition → Bool
  | .and left right => left.holds row defaultTable && right.holds row defaultTable
  | .or left right => left.holds row defaultTable || right.holds row defaultTable
  | .compare c =>
    c.operator.holds (row.resolve c.subject.table? c.subject.field defaultTable) c.value

/-- The tables that a condition reads, one for each comparison; an unqualified field is the
    default table's. -/
def tablesRead (c : Condition) (defaultTable : String) : List String :=
  c.comparisons.map fun cmp => cmp.subject.table?.getD defaultTable

end Condition

end DocQuery
