import DocQuery.Row
import DocQuery.Sorting.Basic
import DocQuery.Statement.Basic

/-!
# Sorting rows

Rows are sorted by the keys of a query, the later keys breaking the ties of the earlier
ones. The sort is stable. Null comes last in ascending and first in descending order. Where a
column mixes types the order can contradict itself, and the sort may panic.
-/

namespace DocQuery

namespace OrderKey

/-- The order of two rows by one key. -/
def compareRows (defaultTable : String) (key : OrderKey) (a b : Row) : Ordering :=
  let left := a.resolve key.table key.field defaultTable
  let right := b.resolve key.table key.field defaultTable
  match key.direction with
  | .ascending => Value.collate left right
  | .descending => Value.collate right left

/-- The order of two rows by all keys. -/
def compareAll (defaultTable : String) (keys : List OrderKey) (a b : Row) : Ordering :=
  keys.foldr (fun key later => (key.compareRows defaultTable a b).then later) .eq

end OrderKey

/-- The bytes that a row takes up where it is sorted. -/
def Row.bytes : Nat := 48

/-- The rows in the order of the keys, unless the sort panics. -/
def sortRows (keys : List OrderKey) (defaultTable : String) (rows : List Row) :
    Option (List Row) :=
  if keys.isEmpty then some rows
  else Sorting.stableSort Row.bytes (OrderKey.compareAll defaultTable keys) rows

/-- The first rows up to a limit, all of them without one. -/
def cutAt (limit : Option Nat) (rows : List Row) : List Row :=
  limit.elim rows rows.take

end DocQuery
