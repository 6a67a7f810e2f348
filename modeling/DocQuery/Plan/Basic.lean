import DocQuery.Filter
import DocQuery.IndexRange

/-!
# Plans — what will be done for a query

A plan says how each table is read, how each joined table is matched with the rows before
it, which condition is left for the joined rows, and where the order comes from. It is made
from the query and a schema alone.
-/

namespace DocQuery

/-- How a table is read. -/
inductive AccessPath where
  | fullScan (filter : Option Filter)
  | index (index : String) (fields : List String) (range : IndexRange) (residual : Option Filter)
  deriving DecidableEq

namespace AccessPath

/-- The index that is read. -/
def index? : AccessPath → Option String
  | .fullScan _ => none
  | .index name _ _ _ => some name

/-- The field that leads the index that is read. -/
def leadingField? : AccessPath → Option String
  | .fullScan _ => none
  | .index _ fields _ _ => fields.head?

end AccessPath

/-- Where the order of the result comes from: nowhere, the store, or a sort. -/
inductive OrderStrategy where
  | unordered
  | native (direction : Direction)
  | inMemory
  deriving DecidableEq

/-- How a joined table is matched: by one lookup for each key, by a table of keys, or by
    trying every pair. -/
inductive JoinStrategy where
  | indexedLookup (index : String)
  | hashProbe
  | nestedLoop
  deriving DecidableEq

/-- What will be done for a joined table. The pushdown is the part of the condition that
    reads this table only; each join condition names this table on its right side if it
    names it on one side. -/
structure JoinPlan where
  table : String
  access : AccessPath
  pushdown : Option Filter
  strategy : JoinStrategy
  conditions : List JoinCondition
  deriving DecidableEq

/-- The equality gives a key of the table: it names the table on its right side only. -/
def JoinCondition.isProbeOf (c : JoinCondition) (table : String) : Bool :=
  c.rightTable == table && c.leftTable != table

/-- The first of equalities that gives a key of the table. -/
def JoinCondition.probe? (table : String) (conditions : List JoinCondition) :
    Option JoinCondition :=
  conditions.find? (·.isProbeOf table)

/-- The equality by which the joined table is keyed. -/
def JoinPlan.probe? (p : JoinPlan) : Option JoinCondition :=
  JoinCondition.probe? p.table p.conditions

/-- What will be done for a query. -/
structure Plan where
  table : String
  access : AccessPath
  order : OrderStrategy
  joins : List JoinPlan
  postJoinFilter : Option Condition
  limit : Option Nat
  deriving DecidableEq

end DocQuery
