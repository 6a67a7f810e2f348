import DocQuery.Function

/-!
# Checking a query — refusals that need no data

A query that reads well may still make no sense: it may name a table twice or one it does
not read, test a call in `WHERE`, call a function wrongly, or select columns that its groups
do not determine. `Select.check` finds the first such fault.
-/

namespace DocQuery

/-- The first text that is already among those before it. -/
def firstRepeated? : List String → List String → Option String
  | _, [] => none
  | seen, t :: ts => if seen.contains t then some t else firstRepeated? (seen ++ [t]) ts

/-- The table that a selected column is qualified by. -/
def Column.qualifier? : Column → Option String
  | .tableStar table => some table
  | .field table _ _ => table
  | _ => none

namespace Select

/-- The tables that the query refers to, in the order in which they are checked. The
    arguments of calls are not among them. -/
def qualifiers (s : Select) : List String :=
  let ofCondition (c : Option Condition) : List String :=
    (c.map fun c => c.comparisons.filterMap (·.subject.table?)).getD []
  s.columns.filterMap Column.qualifier?
    ++ s.joins.flatMap (fun j => j.conditions.flatMap fun c => [c.leftTable, c.rightTable])
    ++ ofCondition s.filter ++ ofCondition s.having
    ++ s.groupBy.filterMap (·.table) ++ s.orderBy.filterMap (·.table)

/-- No table is read twice, and every qualifier is a table that is read. -/
def checkQualifiers (s : Select) : Except QueryError Unit :=
  match firstRepeated? [] s.tables with
  | some table => .error (.repeatedTable table)
  | none =>
    match s.qualifiers.find? fun t => !s.tables.contains t with
    | some table => .error (.unknownQualifier table)
    | none => .ok ()

/-- The column is one of the groups': a group key has its name, and its table if both name
    one. -/
def isGroupedBy (s : Select) (table : Option String) (name : String) : Bool :=
  s.groupBy.any fun g =>
    g.field == name && match g.table, table with
      | some a, some b => a == b
      | _, _ => true

/-- A column that may be selected from groups. -/
def checkGroupedColumn (s : Select) : Column → Except QueryError Unit
  | .star => .error .starWithGroups
  | .tableStar _ => .error .starWithGroups
  | .field table name _ =>
    if s.isGroupedBy table name then .ok () else .error (.notGrouped name)
  | .call _ _ => .ok ()

/-- The columns and the condition on groups fit the kind of the query. -/
def checkShape (s : Select) : Except QueryError Unit :=
  if s.isGrouped then s.columns.forM s.checkGroupedColumn
  else if s.isAggregateOnly then
    match (s.selectedCalls ++ s.havingCalls).find? Call.isRowScoped with
    | some call => .error (.rowFunctionInAggregate call.signature)
    | none => .ok ()
  else if s.columns.any Column.isCall then .error .mixedSelection
  else if s.having.isSome then .error .havingWithoutGroups
  else .ok ()

/-- Finds the first fault of the query. -/
def check (s : Select) : Except QueryError Unit := do
  s.checkQualifiers
  if s.filter.any Condition.containsCall then throw .functionInWhere
  (s.selectedCalls ++ s.havingCalls).forM fun call => do
    let _ ← call.resolve
  s.checkShape

end Select

end DocQuery
