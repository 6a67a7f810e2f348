import DocQuery.Error
import DocQuery.Statement.Basic

/-!
# Limits — how much a query may ask for

A host holds queries to limits: a cap on the rows of a result, the largest `LIMIT` that may
be written, and whether a plain query must write one. Grouped and aggregate queries need
none, because they must see every row and yield few. `Limits.enforce` checks a query and
writes the default limit into a plain one that has none.
-/

namespace DocQuery

/-- What a host allows. -/
structure Limits where
  maxRows : Nat
  maxLimit : Nat
  requireLimit : Bool
  exemptTables : List String
  deriving DecidableEq

namespace Limits

/-- The limits of a host that says nothing. -/
def standard : Limits :=
  ⟨1000, 10000, false, []⟩

/-- The limits of a shared host: a plain query must write a limit. -/
def strict : Limits :=
  ⟨500, 1000, true, []⟩

/-- The limits of a host with little data. -/
def permissive : Limits :=
  ⟨100000, 100000, false, []⟩

/-- The same limits with one more table whose queries need no limit. -/
def exempting (l : Limits) (table : String) : Limits :=
  { l with exemptTables := l.exemptTables ++ [table] }

/-- Queries of the table need no limit. -/
def isExempt (l : Limits) (table : String) : Bool :=
  l.exemptTables.contains table

/-- The query as it is run under the limits: with a limit if it is plain. A missing limit
    that is required is reported first, then a limit that is too large. -/
def enforce (l : Limits) (s : Select) : Except QueryError Select :=
  match s.limit with
  | none =>
    if !s.isPlain then .ok s
    else if l.requireLimit && !l.isExempt s.source then
      .error (.limitRequired s.source l.maxLimit)
    else .ok { s with limit := some l.maxRows }
  | some n => if l.maxLimit < n then .error (.limitExceeded n l.maxLimit) else .ok s

end Limits

end DocQuery
