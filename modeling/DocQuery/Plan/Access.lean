import DocQuery.Error
import DocQuery.Plan.Basic
import DocQuery.Schema

/-!
# Reading through an index — which conditions become bounds

The fields of an index are walked from the first on. An equality on a field is taken as a
bound and the walk goes on; a field without one may be bounded from below and above, and
ends the walk. Such a field needs a bound unless it is the last, and no later field may have
a condition that could bound it. What is not taken is left as a residual filter, in order.
-/

namespace DocQuery.AccessPath

/-- The comparison of a condition that could be a bound on the field, by its operator. -/
def boundOn? (field : String) (accept : Operator → Bool) : Condition → Option Bound
  | .compare ⟨.column _ f, op, value⟩ =>
    if f = field ∧ accept op then (BoundOp.ofOperator? op).map fun b => ⟨f, b, value⟩ else none
  | _ => none

/-- Takes the first condition that makes a bound, and leaves the others. -/
def takeBound (make : Condition → Option Bound) :
    List Condition → Option Bound × List Condition
  | [] => (none, [])
  | c :: cs =>
    match make c with
    | some b => (some b, cs)
    | none =>
      let (b, rest) := takeBound make cs
      (b, c :: rest)

/-- A bound from below. -/
def isLower (op : Operator) : Bool :=
  op == .gt || op == .gtEq

/-- A bound from above. -/
def isUpper (op : Operator) : Bool :=
  op == .lt || op == .ltEq

/-- A condition could bound the field. -/
def constrains (conditions : List Condition) (field : String) : Bool :=
  conditions.any fun c => (boundOn? field (· != .notEq) c).isSome

/-- Walks the fields of an index: the bounds that are taken, and the conditions that are
    left. -/
def walk (index : String) :
    List String → List Condition → Except QueryError (IndexRange × List Condition)
  | [], conditions => .ok ([], conditions)
  | field :: fields, conditions =>
    match takeBound (boundOn? field (· == .eq)) conditions with
    | (some b, rest) => do
      let (bounds, residual) ← walk index fields rest
      .ok (b :: bounds, residual)
    | (none, _) =>
      let (lower, rest) := takeBound (boundOn? field isLower) conditions
      let (upper, residual) := takeBound (boundOn? field isUpper) rest
      if lower.isNone && upper.isNone && !fields.isEmpty then
        .error (.missingLeadingCondition index field)
      else if fields.any (constrains residual) then .error (.rangeNotLast index field)
      else .ok (lower.toList ++ upper.toList, residual)

/-- The read of a table through an index for conditions on that table. -/
def throughIndex (schema : Schema) (table index : String) (conditions : List Condition) :
    Except QueryError AccessPath :=
  match schema.indexFields? table index with
  | none => .error (.indexNotFound table index)
  | some fields => do
    let (range, residual) ← walk index fields conditions
    .ok (.index index fields range (Condition.toFilter? residual))

end DocQuery.AccessPath
