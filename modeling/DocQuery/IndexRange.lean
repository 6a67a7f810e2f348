import DocQuery.Statement.Basic
import DocQuery.Row

/-!
# Index ranges — bounds on the fields of an index

A range is a list of bounds, each a comparison of an index field with a value. A bound can
be any comparison but `!=`, which no stretch of an index serves.
-/

namespace DocQuery

/-- The comparisons that can bound an index. -/
inductive BoundOp where
  | eq
  | gt
  | lt
  | gte
  | lte
  deriving DecidableEq

namespace BoundOp

/-- The bound that a comparison makes. -/
def ofOperator? : Operator → Option BoundOp
  | .eq => some .eq
  | .gt => some .gt
  | .lt => some .lt
  | .gtEq => some .gte
  | .ltEq => some .lte
  | .notEq => none

/-- The comparison that a bound makes. -/
def toOperator : BoundOp → Operator
  | .eq => .eq
  | .gt => .gt
  | .lt => .lt
  | .gte => .gtEq
  | .lte => .ltEq

/-- The name of a bound. -/
def name : BoundOp → String
  | .eq => "eq"
  | .gt => "gt"
  | .lt => "lt"
  | .gte => "gte"
  | .lte => "lte"

end BoundOp

/-- A bound on a field. -/
structure Bound where
  field : String
  op : BoundOp
  value : Value
  deriving DecidableEq

namespace Bound

/-- The row lies within the bound; a missing field is null. -/
def holds (row : Row) (b : Bound) : Bool :=
  b.op.toOperator.holds (row.value b.field) b.value

/-- The bound in words. -/
def render (b : Bound) : String :=
  b.op.name ++ " " ++ b.field ++ " " ++ b.value.display

end Bound

/-- Bounds on the fields of an index. -/
abbrev IndexRange := List Bound

namespace IndexRange

/-- The range in which a field has one value. -/
def single (field : String) (value : Value) : IndexRange :=
  [⟨field, .eq, value⟩]

/-- The row lies within every bound. -/
def holds (row : Row) (range : IndexRange) : Bool :=
  range.all (·.holds row)

end IndexRange

end DocQuery
