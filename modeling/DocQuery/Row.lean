import DocQuery.Keyed
import DocQuery.Value.Basic

/-!
# Rows — field names to values

A row is a keyed collection of values. A stored row has bare field names; once rows of
several tables are joined, each name is qualified by its table. `resolve` reads a field
from either kind, and a field that is missing reads as null wherever values are compared.
-/

namespace DocQuery

/-- Field names to values. -/
abbrev Row := Keyed Value

/-- The name of a field qualified by its table. -/
def qualify (table field : String) : String :=
  table ++ "." ++ field

namespace Row

/-- The row of a document: the fields of an object, and no field of anything else. -/
def ofDocument : Document → Row
  | .object fields => Keyed.ofList (fields.map fun f => (f.1, Value.ofDocument f.2))
  | _ => Keyed.empty

/-- The object that holds a row's values. -/
def toDocument (row : Row) : Document :=
  .ofFields (row.entries.map fun e => (e.1, e.2.toDocument))

/-- The value of a field by its name in the row, null if it is missing. -/
def value (row : Row) (name : String) : Value :=
  (row.get? name).getD .null

/-- The value of a field that may be named without its table. A qualified name is looked
    up as such and then bare; a bare name is looked up bare and then under the default
    table. -/
def resolve? (row : Row) (table : Option String) (field defaultTable : String) :
    Option Value :=
  match table with
  | some t => (row.get? (qualify t field)).or (row.get? field)
  | none => (row.get? field).or (row.get? (qualify defaultTable field))

/-- The resolved value of a field, null if it is missing. -/
def resolve (row : Row) (table : Option String) (field defaultTable : String) : Value :=
  (row.resolve? table field defaultTable).getD .null

/-- Every field name qualified by the table. -/
def qualified (table : String) (row : Row) : Row :=
  Keyed.ofList (row.entries.map fun e => (qualify table e.1, e.2))

/-- The fields of both rows; the second wins where both have one. -/
def merge (left right : Row) : Row :=
  left.insertAll right.entries

end Row

end DocQuery
