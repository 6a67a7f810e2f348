import DocQuery.Plan.Access
import DocQuery.Store.Basic

/-!
# Planning a query

The conjuncts of a condition are dealt out by the tables they read: those on the first
table go into its read, those on one joined table into the read of that table, and the
others are tested on the joined rows. An index hint on the first table must serve its
conditions. One on a joined table that does not is passed over.
-/

namespace DocQuery

-- ── Dealing out the condition ───────────────────────────────────────────────

/-- The one table that a condition reads, if it is one. -/
def Condition.soleTable? (c : Condition) (defaultTable : String) : Option String :=
  match c.tablesRead defaultTable with
  | [] => none
  | t :: ts => if ts.all (· == t) then some t else none

namespace Select

/-- The conjuncts of the condition on rows. -/
def conjuncts (s : Select) : List Condition :=
  (s.filter.map Condition.conjuncts).getD []

/-- The conjuncts that read the first table only. -/
def sourceConjuncts (s : Select) : List Condition :=
  s.conjuncts.filter fun c => c.soleTable? s.source == some s.source

/-- The conjuncts that read one joined table only. -/
def joinedConjuncts (s : Select) (table : String) : List Condition :=
  s.conjuncts.filter fun c => c.soleTable? s.source == some table && table != s.source

/-- The conjuncts that read several tables. -/
def crossConjuncts (s : Select) : List Condition :=
  s.conjuncts.filter fun c => c.soleTable? s.source == none

end Select

-- ── Joins ───────────────────────────────────────────────────────────────────

/-- The equality with the table on its right side if it is on one side only. -/
def JoinCondition.facing (table : String) (c : JoinCondition) : JoinCondition :=
  if c.leftTable = table ∧ c.rightTable ≠ table then c.flipped else c

/-- The first table of the equality that is not among those joined so far. -/
def JoinCondition.tooEarly? (table : String) (joined : List String) (c : JoinCondition) :
    Option String :=
  [c.leftTable, c.rightTable].find? fun t => t != table && !joined.contains t

namespace JoinPlan

/-- How the table is matched. An index serves it if it is hinted at, leads with the key, and
    the key is all there is to test. -/
def strategyFor (schema : Schema) (join : Join) (conditions : List JoinCondition) :
    JoinStrategy :=
  match JoinCondition.probe? join.table conditions, join.indexHint with
  | none, _ => .nestedLoop
  | some _, none => .hashProbe
  | some c, some index =>
    let leads := ((schema.indexFields? join.table index).bind List.head?) == some c.rightField
    if conditions.length = 1 ∧ leads then .indexedLookup index else .hashProbe

/-- The read of the joined table: through the hinted index if that serves the conjuncts. -/
def accessFor (schema : Schema) (join : Join) (conjuncts : List Condition) : AccessPath :=
  let plain := AccessPath.fullScan (Condition.toFilter? conjuncts)
  match join.indexHint with
  | none => plain
  | some index =>
    match AccessPath.throughIndex schema join.table index conjuncts with
    | .ok access => access
    | .error _ => plain

/-- The plan of a joined table, given the tables before it and the conjuncts on it. -/
def ofJoin (schema : Schema) (joined : List String) (conjuncts : List Condition) (join : Join) :
    Except QueryError JoinPlan :=
  let conditions := join.conditions.map (JoinCondition.facing join.table)
  match conditions.findSome? (JoinCondition.tooEarly? join.table joined) with
  | some table => .error (.joinedTooLate table)
  | none => .ok
    { table := join.table
      access := accessFor schema join conjuncts
      pushdown := Condition.toFilter? conjuncts
      strategy := strategyFor schema join conditions
      conditions := conditions }

end JoinPlan

-- ── Queries ─────────────────────────────────────────────────────────────────

namespace Select

/-- The first table of the query that the schema does not have. -/
def missingTable? (s : Select) (schema : Schema) : Option String :=
  s.tables.find? fun t => !schema.hasTable t

/-- Refuses a query on a table that the schema does not have. -/
def checkTables (s : Select) (schema : Schema) : Except QueryError Unit :=
  match s.missingTable? schema with
  | some table => .error (.tableNotFound table)
  | none => .ok ()

/-- The read of the first table. -/
def planAccess (s : Select) (schema : Schema) : Except QueryError AccessPath :=
  match s.indexHint with
  | some index => AccessPath.throughIndex schema s.source index s.sourceConjuncts
  | none => .ok (.fullScan (Condition.toFilter? s.sourceConjuncts))

/-- The plans of joined tables after the tables before them. -/
def planJoins (s : Select) (schema : Schema) :
    List String → List Join → Except QueryError (List JoinPlan)
  | _, [] => .ok []
  | joined, join :: joins => do
    let plan ← JoinPlan.ofJoin schema joined (s.joinedConjuncts join.table) join
    let plans ← s.planJoins schema (joined ++ [join.table]) joins
    .ok (plan :: plans)

/-- The field whose order a read has by itself: the creation time in a full scan, the
    leading field through an index. -/
def nativeField? : AccessPath → Option String
  | .fullScan _ => some creationTimeField
  | .index _ fields _ _ => fields.head?

/-- Where the order comes from. The store's own order serves a plain query on one table
    with one key of that table. -/
def orderStrategy (s : Select) (access : AccessPath) : OrderStrategy :=
  match s.orderBy with
  | [] => .unordered
  | [key] =>
    if s.joins.isEmpty && s.isPlain && (key.table.all (· == s.source))
        && nativeField? access == some key.field then
      .native key.direction
    else .inMemory
  | _ => .inMemory

/-- The plan of a query. -/
def plan (s : Select) (schema : Schema) : Except QueryError Plan := do
  s.checkTables schema
  let access ← s.planAccess schema
  let joins ← s.planJoins schema [s.source] s.joins
  .ok
    { table := s.source
      access := access
      order := s.orderStrategy access
      joins := joins
      postJoinFilter := Condition.all? s.crossConjuncts
      limit := s.limit }

end Select

end DocQuery
