import DocQuery.Row
import DocQuery.Statement.Basic

/-!
# Projection — from rows to result rows

A plain query shows each row through its columns. `*` shows every field as it is named in
the row, a table's `*` the fields of that table under their bare names. A grouped query
shows the computed row of each group under the output names of its columns.
-/

namespace DocQuery

/-- A text without what it starts with, if it starts so. -/
def withoutStart? (start text : String) : Option String :=
  (start.toList.isPrefixOf? text.toList).map String.ofList

namespace Column

/-- The fields of a table under their bare names. On rows that are not joined the first
    table's are those whose name has no point in it. -/
def tableFields (table defaultTable : String) (row : Row) : List (String × Value) :=
  let qualified := row.entries.filterMap fun e =>
    (withoutStart? (table ++ ".") e.1).map fun name => (name, e.2)
  if qualified.isEmpty && table == defaultTable then
    row.entries.filter fun e => !e.1.toList.contains '.'
  else qualified

/-- What a column of a plain query writes into the result row. -/
def cells (defaultTable : String) (row : Row) : Column → List (String × Value)
  | .star => row.entries
  | .tableStar table => tableFields table defaultTable row
  | .field table name label => [(label.getD name, row.resolve table name defaultTable)]
  | .call _ _ => []

end Column

/-- A row as a plain query shows it; of two columns with one name the later wins. -/
def projectRow (columns : List Column) (defaultTable : String) (row : Row) : Row :=
  Keyed.ofList (columns.flatMap (Column.cells defaultTable row))

/-- A computed row as a grouped query shows it. -/
def projectGroupRow (columns : List Column) (row : Row) : Row :=
  Keyed.ofList ((columns.filterMap Column.outputName?).map fun name => (name, row.value name))

end DocQuery
