import DocQuery.Plan.Query
import DocQuery.Result.Group
import DocQuery.Result.Join

/-!
# Running a plan

The first table is read, the others are joined to it one by one, the condition that was
left is tested, and the rows are shown: grouped, aggregated, or plain. The store cuts the
rows at the limit only where nothing after the read drops or reorders them. A host's cap on
rows comes last.
-/

namespace DocQuery.Plan

/-- The limit that the store may apply. -/
def pushedLimit (p : Plan) (s : Select) : Option Nat :=
  if s.isPlain && p.joins.isEmpty && p.order != .inMemory then s.limit else none

/-- The direction that the store is asked for. -/
def nativeDirection (p : Plan) : Option Direction :=
  match p.order with
  | .native d => some d
  | _ => none

/-- The rows that remain when all tables are joined and the condition left for the joined
    rows is tested. Rows of a single table keep their bare names. -/
def joinedRows (p : Plan) (store : Store) (source : List Row) : Reading (List Row) :=
  if p.joins.isEmpty then pure source
  else do
    let rows ← p.joins.foldlM (joinRows store) (source.map (Row.qualified p.table))
    return rows.filter fun row => p.postJoinFilter.all (·.holds row p.table)

/-- The rows in the order of the query, sorted unless the store has ordered them. -/
def ordered (p : Plan) (s : Select) (rows : List Row) : Option (List Row) :=
  if p.order = .inMemory then sortRows s.orderBy s.source rows else some rows

/-- The result rows of a plain query. -/
def showPlain (p : Plan) (s : Select) (rows : List Row) : Option (List Row) :=
  (p.ordered s rows).map fun sorted => (cutAt s.limit sorted).map (projectRow s.columns s.source)

/-- The result rows of a query. -/
def showRows (p : Plan) (s : Select) (rows : List Row) : Outcome QueryError (List Row) :=
  if s.isGrouped then s.groupRows rows
  else if s.isAggregateOnly then s.aggregateAll rows
  else .ofSort (p.showPlain s rows)

/-- The result of a query on a store, at most so many rows. -/
def run (p : Plan) (s : Select) (store : Store) (maxRows : Nat) : Reading (List Row) := do
  let source ← store.fetch p.table p.access p.nativeDirection (p.pushedLimit s)
  let rows ← p.joinedRows store source
  let shown ← Reading.ofResult (p.showRows s rows)
  return shown.take maxRows

end DocQuery.Plan
