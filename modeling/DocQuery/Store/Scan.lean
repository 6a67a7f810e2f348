import DocQuery.Filter
import DocQuery.Sorting.Basic
import DocQuery.Store.Basic

/-!
# Scans — reading one table

A scan is opened on a table and sees its rows and indexes as they were then. It may be
narrowed to a range of an index, filtered any number of times, and turned around; then it
yields its rows, all of them or the first few. Through an index rows come in the order of
the index fields, and otherwise in the order of creation. The store sorts references to its rows,
not the rows.
-/

namespace DocQuery

/-- The index a scan reads through: its fields and the bounds on them. -/
structure ScanIndex where
  fields : List String
  range : IndexRange
  deriving DecidableEq

/-- A table as it is about to be read. -/
structure Scan where
  table : String
  source : StoredTable
  index : Option ScanIndex
  filters : List Filter
  direction : Direction
  deriving DecidableEq

/-- Open a scan of a table. -/
def Store.scan (s : Store) (table : String) : Except StoreError Scan :=
  match s.tables.get? table with
  | none => .error (.tableNotFound table)
  | some t => .ok ⟨table, t, none, [], .ascending⟩

namespace Scan

/-- Read through a range of an index. Every bound must be on one of its fields. -/
def through (q : Scan) (index : String) (range : IndexRange) : Except StoreError Scan :=
  match q.source.indexes.get? index with
  | none => .error (.indexNotFound q.table index)
  | some fields =>
    match range.find? fun b => !fields.contains b.field with
    | some b => .error (.fieldNotIndexed q.table index b.field)
    | none => .ok { q with index := some ⟨fields, range⟩ }

/-- Keep only the rows that pass one more filter. -/
def filtered (q : Scan) (filter : Filter) : Scan :=
  { q with filters := q.filters ++ [filter] }

/-- Keep only the rows that pass a filter, if there is one. -/
def filteredBy (q : Scan) : Option Filter → Scan
  | none => q
  | some filter => q.filtered filter

/-- Give the rows in a direction. -/
def directed (q : Scan) (direction : Direction) : Scan :=
  { q with direction }

-- ── Rows ────────────────────────────────────────────────────────────────────

/-- The order of two rows by the fields of an index, a missing field being null. -/
def compareKeys (fields : List String) (a b : Row) : Ordering :=
  fields.foldr (fun f later => (Value.collate (a.value f) (b.value f)).then later) .eq

/-- The order of the rows of an index in a direction. -/
def compareRows (fields : List String) (direction : Direction) (a b : Row) : Ordering :=
  match direction with
  | .ascending => compareKeys fields a b
  | .descending => (compareKeys fields a b).swap

/-- The row lies within the range of the index and passes every filter. -/
def admits (q : Scan) (row : Row) : Bool :=
  (match q.index with
    | some i => i.range.holds row
    | none => true) && q.filters.all (·.holds row)

/-- The bytes that a reference to a row takes up. -/
def referenceBytes : Nat := 8

/-- The rows of the scan, unless the sort panics. Rows that agree on all index fields stay in
    order of creation in either direction. -/
def rows (q : Scan) : Option (List Row) :=
  let selected := q.source.rows.filter q.admits
  match q.index, q.direction with
  | some i, direction =>
    Sorting.stableSort referenceBytes (compareRows i.fields direction) selected
  | none, .descending => some selected.reverse
  | none, .ascending => some selected

/-- The first rows of the scan, all of them if no count is given. -/
def take (q : Scan) : Option Nat → Option (List Row)
  | none => q.rows
  | some n => q.rows.map (·.take n)

end Scan

end DocQuery
