import DocQuery.Plan.Basic
import DocQuery.Store.Reading
import DocQuery.Store.Scan

/-!
# Fetching — reading a table as a plan says

A fetch opens one scan, narrows it to the index range and the filter of an access path, and
takes its rows. Only a store without the table opens none.
-/

namespace DocQuery.Store

/-- Open a scan for a reading, which counts it. -/
def openScan (store : Store) (table : String) : Reading Scan :=
  match store.scan table with
  | .ok q => ⟨.ok q, 1⟩
  | .error e => ⟨.error (.refused (.ofStore e)), 0⟩

/-- The scan narrowed as an access path says. -/
def narrow (access : AccessPath) (q : Scan) : Except StoreError Scan :=
  match access with
  | .fullScan filter => .ok (q.filteredBy filter)
  | .index index _ range residual => do
    return (← q.through index range).filteredBy residual

/-- The rows of a table by an access path, in a direction if one is given, and no more than
    a count if one is given. -/
def fetch (store : Store) (table : String) (access : AccessPath)
    (direction : Option Direction) (count : Option Nat) : Reading (List Row) := do
  let q ← store.openScan table
  let q ← Reading.ofResult (.ofChecked ((narrow access q).mapError .ofStore))
  let q := match direction with
    | some d => q.directed d
    | none => q
  Reading.ofResult (.ofSort (q.take count))

/-- The rows of a table that have a value in an index field and pass a filter. -/
def fetchKey (store : Store) (table index field : String) (filter : Option Filter)
    (key : Value) : Reading (List Row) := do
  let q ← store.openScan table
  let q ← Reading.ofResult
    (.ofChecked ((q.through index (IndexRange.single field key)).mapError .ofStore))
  Reading.ofResult (.ofSort (q.filteredBy filter).rows)

end DocQuery.Store
