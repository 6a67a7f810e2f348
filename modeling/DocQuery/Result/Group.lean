import DocQuery.Filter
import DocQuery.Function
import DocQuery.Result.Projection
import DocQuery.Result.Sort

/-!
# Groups — one result row for each tuple of group values

Rows with the same group values make up a group; groups come in order of first appearance.
For each group one row is computed: it holds the group values, the results of the calls in
`HAVING`, and the selected columns. That row is tested, sorted and shown. A query that only
selects calls has one group, of all rows.
-/

namespace DocQuery

/-- The values of the group keys in a row. -/
def GroupKey.valuesOf (keys : List GroupKey) (defaultTable : String) (row : Row) : List Value :=
  keys.map fun k => row.resolve k.table k.field defaultTable

/-- The text of a row's group: the keys of its group values with bars between them. -/
def GroupKey.textOf (keys : List GroupKey) (defaultTable : String) (row : Row) : String :=
  "|".intercalate ((GroupKey.valuesOf keys defaultTable row).map Value.key)

namespace Select

/-- The members of each group. -/
def groups (s : Select) (rows : List Row) : List (List Row) :=
  (Keyed.collect (fun row => some (GroupKey.textOf s.groupBy s.source row)) rows).values

/-- The value of a field in the first member of a group, null if there is none. -/
def firstValue (s : Select) (members : List Row) (table : Option String) (field : String) :
    Value :=
  match members with
  | [] => .null
  | row :: _ => row.resolve table field s.source

/-- What a column writes into a group's row: a call under its signature, and before that
    under its label if it has one. -/
def groupCells (s : Select) (members : List Row) :
    Column → Except QueryError (List (String × Value))
  | .star => .ok []
  | .tableStar _ => .ok []
  | .field table name label => .ok [(label.getD name, s.firstValue members table name)]
  | .call call label => do
    let value ← call.compute s.source members
    .ok ((label.map fun a => (a, value)).toList ++ [(call.signature, value)])

/-- The row computed for a group. It is written in order: the group values under their
    field names, the calls of `HAVING` under their signatures, then the selected columns; a
    later cell of one name replaces an earlier one. -/
def groupRow (s : Select) (members : List Row) : Except QueryError Row := do
  let keys := s.groupBy.map fun k => (k.field, s.firstValue members k.table k.field)
  let having ← s.havingCalls.mapM fun call => do
    return (call.signature, ← call.compute s.source members)
  let cells ← s.columns.mapM (s.groupCells members)
  return Keyed.ofList (keys ++ having ++ cells.flatten)

/-- The computed row passes the condition on groups. -/
def havingHolds (s : Select) (row : Row) : Bool :=
  s.having.all (·.holds row s.source)

/-- The computed rows as the query shows them: tested, sorted, cut and projected. -/
def finish (s : Select) (rows : List Row) : Option (List Row) :=
  (sortRows s.orderBy s.source (rows.filter s.havingHolds)).map fun sorted =>
    (cutAt s.limit sorted).map (projectGroupRow s.columns)

/-- The result of a grouped query over its rows. -/
def groupRows (s : Select) (rows : List Row) : Outcome QueryError (List Row) := do
  let computed ← .ofChecked ((s.groups rows).mapM s.groupRow)
  .ofSort (s.finish computed)

/-- The result of an aggregate query over its rows. -/
def aggregateAll (s : Select) (rows : List Row) : Outcome QueryError (List Row) := do
  let computed ← .ofChecked (s.groupRow rows)
  .ofSort (s.finish [computed])

end Select

end DocQuery
