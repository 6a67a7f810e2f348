import DocQuery.Proofs.Engine.Limit
import DocQuery.Proofs.Engine.Safety

/-!
# The rows that a query finds

Before a query shows anything it finds rows: those of its tables, joined, that meet its
condition. Which rows these are depends on the tables, the hints, the joins and the condition
only (`SameRows.foundWith`), and on no limit. Groups and aggregates are made of all that a query
finds (`uncutWith_of_isGrouped`, `uncutWith_of_isAggregateOnly`); the limit and the host's cap come
last (`executeQuery_withLimit`).
-/

namespace DocQuery

namespace Select

variable {s s' : Select} {schema : Schema} {store : Store}

/-- The rows that a query finds on a store when it is planned with a schema. -/
def foundWith (s : Select) (schema : Schema) (store : Store) : Outcome QueryError (List Row) := do
  let p ← .ofChecked (s.plan schema)
  (p.found store).result

/-- The queries read the same tables by the same hints, join them alike and test the same
    condition. -/
structure SameRows (s s' : Select) : Prop where
  source : s'.source = s.source
  indexHint : s'.indexHint = s.indexHint
  joins : s'.joins = s.joins
  filter : s'.filter = s.filter

/-- Of a plan neither the order nor the limit matters to what is found. -/
theorem foundWith_eq (s : Select) (schema : Schema) (store : Store) :
    s.foundWith schema store = (do
      let (access, joins) ← Outcome.ofChecked (do
        s.checkTables schema
        let access ← s.planAccess schema
        let joins ← s.planJoins schema [s.source] s.joins
        return (access, joins))
      (Plan.found ⟨s.source, access, .unordered, joins, Condition.all? s.crossConjuncts, none⟩
        store).result) := by
  rw [foundWith, plan]
  cases s.checkTables schema with
  | error e => rfl
  | ok _ =>
      cases s.planAccess schema with
      | error e => rfl
      | ok access =>
          show Outcome.ofChecked (s.planJoins schema [s.source] s.joins >>= _) >>= _
            = Outcome.ofChecked (s.planJoins schema [s.source] s.joins >>= _) >>= _
          cases s.planJoins schema [s.source] s.joins <;> rfl

/-- What is planned of the tables and the condition is planned alike. -/
theorem SameRows.parts (h : s.SameRows s') (schema : Schema) :
    s'.checkTables schema = s.checkTables schema ∧
      s'.planAccess schema = s.planAccess schema ∧
      s'.planJoins schema [s'.source] s'.joins = s.planJoins schema [s.source] s.joins ∧
      s'.crossConjuncts = s.crossConjuncts := by
  have hconjuncts : s'.conjuncts = s.conjuncts := by
    rw [conjuncts, conjuncts, h.filter]
  have hjoined : ∀ table, s'.joinedConjuncts table = s.joinedConjuncts table := by
    intro table
    rw [joinedConjuncts, joinedConjuncts, hconjuncts, h.source]
  refine ⟨?_, ?_, ?_, ?_⟩
  · rw [checkTables, checkTables, missingTable?, missingTable?, tables, tables, h.source, h.joins]
  · rw [planAccess, planAccess, sourceConjuncts, sourceConjuncts, hconjuncts, h.source,
      h.indexHint]
  · rw [planJoins_congr hjoined, h.source, h.joins]
  · rw [crossConjuncts, crossConjuncts, hconjuncts, h.source]

/-- Queries that read the same rows find them, or fail for the same reason. -/
theorem SameRows.foundWith (h : s.SameRows s') (schema : Schema) (store : Store) :
    s'.foundWith schema store = s.foundWith schema store := by
  obtain ⟨htables, haccess, hjoins, hcross⟩ := h.parts schema
  rw [foundWith_eq, foundWith_eq, htables, haccess, hcross, hjoins, h.source]

/-- A grouped statement is not plain. -/
theorem isPlain_of_isGrouped (h : s.isGrouped = true) : s.isPlain = false := by
  rw [isPlain, h]
  rfl

/-- A query that is neither plain nor grouped only selects calls. -/
theorem isAggregateOnly_of_isPlain_eq_false (hplain : s.isPlain = false)
    (hgrouped : ¬s.isGrouped = true) : s.isAggregateOnly = true := by
  rw [isPlain, Bool.eq_false_iff.mpr hgrouped] at hplain
  simpa using hplain

/-- The store orders the rows of plain queries only. -/
theorem nativeDirection_of_isPlain_eq_false {p : Plan} (h : s.plan schema = .ok p)
    (hplain : s.isPlain = false) : p.nativeDirection = none := by
  obtain ⟨-, -, horder, -, -⟩ := plan_eq_ok h
  rw [Plan.nativeDirection, horder, orderStrategy, hplain, Bool.and_false]
  rcases s.orderBy with _ | ⟨key, _ | ⟨later, keys⟩⟩ <;> rfl

end Select

-- ── Accepted queries ────────────────────────────────────────────────────────

namespace Engine

variable {s : Select} {schema : Schema} {limits : Limits} {e : Engine} {db : Database}

/-- The engine accepts the query. -/
def Accepts (e : Engine) (db : Database) (s : Select) : Prop :=
  ∃ p, (e.prepare db s).1 = .ok p

/-- An engine that accepts a query has a schema to run by. -/
theorem Accepts.exists_runsBy (h : e.Accepts db s) :
    ∃ schema, (e.IsCurrent db → schema = db.store.schema) ∧ e.RunsBy db schema := by
  obtain ⟨p, hp⟩ := h
  exact Engine.exists_runsBy hp

end Engine

end DocQuery
