import DocQuery.Result.Fetch

/-!
# Joins — matching rows of a table with the rows before it

Joined rows have qualified names, and matching merges a row of the joined table into a row
from before. There are three ways to find the matches: a lookup through an index for each
distinct key, a table of keys over all rows, and trying every pair. The first falls back to
the second where the store refuses a lookup, but not from a panic. Null equals nothing here,
so a row without a key has no match.
-/

namespace DocQuery

namespace JoinCondition

/-- The joined row satisfies the equality; a null or missing field equals nothing. -/
def holds (row : Row) (c : JoinCondition) : Bool :=
  match row.get? (qualify c.leftTable c.leftField),
    row.get? (qualify c.rightTable c.rightField) with
  | some l, some r => !l.isNull && l.equal r
  | _, _ => false

/-- The left side of the equality in a row, if it has a value. -/
def leftValue? (c : JoinCondition) (row : Row) : Option Value :=
  (row.get? (qualify c.leftTable c.leftField)).filter fun v => !v.isNull

/-- The right side of the equality in a row, if it has a value. -/
def rightValue? (c : JoinCondition) (row : Row) : Option Value :=
  (row.get? (qualify c.rightTable c.rightField)).filter fun v => !v.isNull

end JoinCondition

-- ── Rows of two sides ───────────────────────────────────────────────────────

/-- The merges of a row with each candidate that satisfy every equality. -/
def matchRow (conditions : List JoinCondition) (candidates : List Row) (left : Row) : List Row :=
  (candidates.map left.merge).filter fun row => conditions.all (·.holds row)

/-- The matches of every pair. -/
def nestedLoop (conditions : List JoinCondition) (left right : List Row) : List Row :=
  left.flatMap (matchRow conditions right)

/-- Rows collected under the key of the right side of an equality. -/
def bucketRows (c : JoinCondition) (rows : List Row) : Keyed (List Row) :=
  Keyed.collect (fun row => (c.rightValue? row).map Value.key) rows

/-- The matches of the rows that share a key. -/
def probe (c : JoinCondition) (conditions : List JoinCondition) (left : List Row)
    (buckets : Keyed (List Row)) : List Row :=
  left.flatMap fun row =>
    match c.leftValue? row with
    | none => []
    | some v => matchRow conditions ((buckets.get? v.key).getD []) row

/-- The values of the left side of an equality, each once, in order of appearance. -/
def distinctKeys (c : JoinCondition) (left : List Row) : List Value :=
  (Keyed.firsts Value.key (left.filterMap c.leftValue?)).values

-- ── The three ways ──────────────────────────────────────────────────────────

/-- The rows that a lookup through an index finds for each distinct key, under their keys.
    Every key is looked up, also after one is refused. -/
def lookupByKey (store : Store) (join : JoinPlan) (c : JoinCondition) (index : String)
    (left : List Row) : Reading (Keyed (List Row)) := do
  let found ← Reading.all ((distinctKeys c left).map
    (store.fetchKey join.table index c.rightField join.pushdown))
  return bucketRows c (found.flatten.map (Row.qualified join.table))

/-- The matches of a table that is read once, by key if an equality gives one. -/
def scanJoin (store : Store) (join : JoinPlan) (left : List Row) : Reading (List Row) := do
  let rows ← store.fetch join.table join.access none none
  let right := rows.map (Row.qualified join.table)
  match join.probe? with
  | some c => return probe c join.conditions left (bucketRows c right)
  | none => return nestedLoop join.conditions left right

/-- The matches of a joined table with the rows before it. -/
def joinRows (store : Store) (left : List Row) (join : JoinPlan) : Reading (List Row) :=
  match join.strategy, join.probe? with
  | .indexedLookup index, some c =>
    let found := lookupByKey store join c index left
    match found.result with
    | .ok buckets => ⟨.ok (probe c join.conditions left buckets), found.scans⟩
    | .error .panicked => ⟨.error .panicked, found.scans⟩
    | .error (.refused _) => (scanJoin store join left).after found.scans
  | _, _ => scanJoin store join left

end DocQuery
