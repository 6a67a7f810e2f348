import DocQuery.Error
import DocQuery.Number.Arithmetic
import DocQuery.Row
import DocQuery.Statement.Basic

/-!
# Functions — what a call computes over rows

Every function takes one argument, a column, and `COUNT` also takes `*`. All but `ABS` look
at every row of a group; `ABS` looks at the first. Values that are not numbers do not count
towards `SUM` and `AVG`, and null does not count at all.
-/

namespace DocQuery

/-- The functions. -/
inductive Function where
  | count
  | sum
  | avg
  | min
  | max
  | abs
  deriving DecidableEq

namespace Function

/-- The function of a name in upper case. -/
def ofName? : String → Option Function
  | "COUNT" => some .count
  | "SUM" => some .sum
  | "AVG" => some .avg
  | "MIN" => some .min
  | "MAX" => some .max
  | "ABS" => some .abs
  | _ => none

/-- The function reads one row and not the group. -/
def isRowScoped (f : Function) : Bool :=
  f == .abs

end Function

/-- What a function reads: all rows as such, or a column of them. -/
inductive Source where
  | allRows
  | column (table : Option String) (name : String)
  deriving DecidableEq

namespace Call

/-- The function of a call and what it reads. An unknown name is reported first, then a
    wrong count of arguments, then an argument that the function does not take. -/
def resolve (call : Call) : Except QueryError (Function × Source) :=
  match Function.ofName? call.name with
  | none => .error (.unknownFunction call.name)
  | some f =>
    match call.arguments with
    | [.column table name] => .ok (f, .column table name)
    | [.star] =>
      if f = .count then .ok (f, .allRows)
      else .error (.argumentNotAccepted call.name Argument.star.render)
    | [a] => .error (.argumentNotAccepted call.name a.render)
    | as => .error (.wrongArgumentCount call.name as.length)

/-- The call reads one row and not the group. -/
def isRowScoped (call : Call) : Bool :=
  (Function.ofName? call.name).any Function.isRowScoped

-- ── Values ──────────────────────────────────────────────────────────────────

/-- The values that a function reads from rows. -/
def sourceValues (source : Source) (defaultTable : String) (rows : List Row) : List Value :=
  rows.map fun row =>
    match source with
    | .allRows => .null
    | .column table name => row.resolve table name defaultTable

/-- The first of the values that no other is beyond in the wanted direction; null does not
    count, and of no values there is none. -/
def extremum (wanted : Ordering) (values : List Value) : Value :=
  match values.filter fun v => !v.isNull with
  | [] => .null
  | v :: vs =>
    vs.foldl (fun best v => if Value.collateValue v best = wanted then v else best) v

/-- The numbers among values. -/
def numbers (values : List Value) : List Number :=
  values.filterMap Value.number?

/-- The mean of numbers; of none there is none. -/
def mean (xs : List Number) : Value :=
  if xs.isEmpty then .null else .number ((Number.sum xs).div (.ofNat xs.length))

/-- The value of a call over the rows of a group. -/
def compute (call : Call) (defaultTable : String) (rows : List Row) :
    Except QueryError Value := do
  let (function, source) ← call.resolve
  let values := sourceValues source defaultTable rows
  match function with
  | .count =>
    match source with
    | .allRows => .ok (.number (.ofNat rows.length))
    | .column _ _ => .ok (.number (.ofNat (values.filter fun v => !v.isNull).length))
  | .sum => .ok (.number (Number.sum (numbers values)))
  | .avg => .ok (mean (numbers values))
  | .min => .ok (extremum .lt values)
  | .max => .ok (extremum .gt values)
  | .abs =>
    match values with
    | [] => .error (.noCurrentRow call.signature)
    | v :: _ => .ok ((v.number?.map fun x => .number x.abs).getD .null)

end Call

end DocQuery
