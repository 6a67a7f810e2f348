import DocQuery.Keyed
import DocQuery.Document.Basic

/-!
# Schemas — tables and their indexes

A schema names the tables of a store and, for each, its indexes with their fields in
order. It is read from an object with the one field `tables`, whose tables have the one
field `indexes`, or from lists that hold just those fields.
-/

namespace DocQuery

/-- The fields of each index of a table. -/
abbrev Indexes := Keyed (List String)

/-- The tables of a store with their indexes. -/
structure Schema where
  tables : Keyed Indexes
  deriving DecidableEq

namespace Schema

/-- The schema without tables. -/
def empty : Schema :=
  ⟨Keyed.empty⟩

/-- The schema has the table. -/
def hasTable (s : Schema) (table : String) : Bool :=
  s.tables.contains table

/-- The fields of an index of a table. -/
def indexFields? (s : Schema) (table index : String) : Option (List String) :=
  (s.tables.get? table).bind fun indexes => indexes.get? index

/-- The schema with a table; one that is there keeps its indexes. -/
def withTable (s : Schema) (table : String) : Schema :=
  ⟨s.tables.alter table fun indexes => indexes.getD Keyed.empty⟩

/-- The schema with an index on a table, which is added if it is missing. -/
def withIndex (s : Schema) (table index : String) (fields : List String) : Schema :=
  ⟨s.tables.alter table fun indexes => (indexes.getD Keyed.empty).insert index fields⟩

-- ── Documents ───────────────────────────────────────────────────────────────

/-- The one field of an object, or the one item of a list. -/
def onlyPart? (name : String) : Document → Option Document
  | .object fields => (Document.object fields).field? name
  | .list [d] => some d
  | _ => none

/-- The fields of an object with their values read. -/
def entries? {α : Type} (read : Document → Option α) : Document → Option (Keyed α)
  | .object fields =>
    (fields.mapM fun f => (read f.2).map fun v => (f.1, v)).map Keyed.ofList
  | _ => none

/-- The items of a list of texts. -/
def names? (d : Document) : Option (List String) :=
  d.items?.bind fun items => items.mapM Document.text?

/-- The schema that a document writes. -/
def ofDocument? (d : Document) : Option Schema := do
  let tables ← onlyPart? "tables" d
  let read ← entries? (fun table => (onlyPart? "indexes" table).bind (entries? names?)) tables
  some ⟨read⟩

/-- The document of a schema. -/
def toDocument (s : Schema) : Document :=
  let indexes (i : Indexes) : Document :=
    .ofFields (i.entries.map fun e => (e.1, .list (e.2.map .text)))
  .ofFields [("tables", .ofFields (s.tables.entries.map fun t =>
    (t.1, .ofFields [("indexes", indexes t.2)])))]

end Schema

end DocQuery
