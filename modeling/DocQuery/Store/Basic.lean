import DocQuery.Error
import DocQuery.IndexRange
import DocQuery.Schema

/-!
# Stores — tables of rows in order of creation

A store holds tables, each with its rows in the order in which they were inserted and its
indexes. A clock counts insertions over all tables, the refused ones included; an inserted
row gets its tick as creation time, and an id that says table and tick unless it brings a
text as its id.
-/

namespace DocQuery

/-- A stored table. -/
structure StoredTable where
  rows : List Row
  indexes : Indexes
  deriving DecidableEq

/-- A table without rows and indexes. -/
def StoredTable.empty : StoredTable :=
  ⟨[], Keyed.empty⟩

/-- The field that holds a row's id. -/
def idField : String := "_id"

/-- The field that holds a row's creation time. -/
def creationTimeField : String := "_creationTime"

/-- Tables, and the count of insertions so far. -/
structure Store where
  tables : Keyed StoredTable
  clock : Nat
  deriving DecidableEq

namespace Store

/-- The store without tables. -/
def empty : Store :=
  ⟨Keyed.empty, 0⟩

/-- The store with a table; one that is there keeps its rows. -/
def createTable (s : Store) (table : String) : Store :=
  { s with tables := s.tables.alter table fun t => t.getD .empty }

/-- The id of a row that is inserted into a table at a tick. -/
def idOf (table : String) (tick : Nat) (row : Row) : String :=
  match row.get? idField with
  | some (.text id) => id
  | _ => table ++ ":" ++ toString tick

/-- A row with its id and its creation time. -/
def stamp (id : String) (tick : Nat) (row : Row) : Row :=
  (row.insert idField (.text id)).insert creationTimeField (.number (.ofNat tick))

/-- Insert a document: its id, or the refusal if there is no such table, and the store
    afterwards. -/
def insert (s : Store) (table : String) (doc : Document) : Except StoreError String × Store :=
  let row := Row.ofDocument doc
  let tick := s.clock + 1
  let id := idOf table tick row
  match s.tables.get? table with
  | none => (.error (.tableNotFound table), { s with clock := tick })
  | some t =>
    let t := { t with rows := t.rows ++ [stamp id tick row] }
    (.ok id, { tables := s.tables.insert table t, clock := tick })

/-- Insert documents one after the other. -/
def insertAll (s : Store) (table : String) (docs : List Document) : Store :=
  docs.foldl (fun s d => (s.insert table d).2) s

/-- Create a table if it is missing and insert documents into it. -/
def addTable (s : Store) (table : String) (docs : List Document) : Store :=
  (s.createTable table).insertAll table docs

/-- Define an index of a table; one of the same name is replaced. -/
def defineIndex (s : Store) (table index : String) (fields : List String) :
    Except StoreError Store :=
  match s.tables.get? table with
  | none => .error (.tableNotFound table)
  | some t =>
    let t := { t with indexes := t.indexes.insert index fields }
    .ok { s with tables := s.tables.insert table t }

/-- The count of a table's rows. -/
def rowCount? (s : Store) (table : String) : Option Nat :=
  (s.tables.get? table).map (·.rows.length)

/-- The tables and indexes of the store. -/
def schema (s : Store) : Schema :=
  ⟨s.tables.map StoredTable.indexes⟩

end Store

end DocQuery
