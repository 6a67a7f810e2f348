import DocQuery.Proofs.Engine.Single
import DocQuery.Proofs.Plan.Rearranged

/-!
# The order of operands does not matter to a query

Two queries that differ only in a rearrangement of the condition on rows are accepted together,
and then have the same outcome on every store: the same rows in the same order, or the same
failure (`executeQuery_rearranged`). The bounds that are taken on an index may well differ; what
is read, sorted, grouped and shown does not.
-/

namespace DocQuery

variable {s : Select} {c d : Condition}

-- ── Acceptance ──────────────────────────────────────────────────────────────

theorem Select.mem_qualifiers_withFilter (h : c.Rearranged d) (t : String) :
    t ∈ (s.withFilter c).qualifiers ↔ t ∈ (s.withFilter d).qualifiers := by
  have hfilter : (c.comparisons.filterMap (·.subject.table?)).Perm
      (d.comparisons.filterMap (·.subject.table?)) := h.comparisons_perm.filterMap _
  have hmem := hfilter.mem_iff (a := t)
  simp only [qualifiers, withFilter, Option.map_some, Option.getD_some, List.mem_append, hmem]

/-- Queries with rearranged conditions pass the check together. -/
theorem Select.check_withFilter (h : c.Rearranged d) :
    (s.withFilter c).check = .ok () ↔ (s.withFilter d).check = .ok () := by
  have hcall : c.containsCall = d.containsCall := h.comparisons_perm.any_eq
  have hqual : (s.withFilter c).checkQualifiers = .ok ()
      ↔ (s.withFilter d).checkQualifiers = .ok () := by
    rw [checkQualifiers_eq_ok_iff, checkQualifiers_eq_ok_iff]
    exact and_congr Iff.rfl (forall_congr' fun t =>
      imp_congr (mem_qualifiers_withFilter h t) Iff.rfl)
  rw [check_eq_ok_iff, check_eq_ok_iff, hqual]
  refine and_congr Iff.rfl (and_congr ?_ Iff.rfl)
  show c.containsCall = false ↔ d.containsCall = false
  rw [hcall]

-- ── Preparation ─────────────────────────────────────────────────────────────

/-- The queries run alike on every store. -/
def Prepared.RunsAlike (p p' : Prepared) : Prop :=
  ∀ store maxRows, p.plan.run p.query store maxRows = p'.plan.run p'.query store maxRows

/-- Queries with rearranged conditions that pass the check are prepared to run alike, or refused
    for the same reason. -/
theorem Engine.prepareWith_agree (limits : Limits) (schema : Schema) (h : c.Rearranged d)
    (hcheck : (s.withFilter c).check = .ok ()) :
    Agree Prepared.RunsAlike (prepareWith limits schema (s.withFilter c))
      (prepareWith limits schema (s.withFilter d)) := by
  have henforce : ∀ w, limits.enforce (s.withFilter w)
      = (limits.enforce s).map (·.withFilter w) :=
    fun w => Limits.enforce_comm (f := (·.withFilter w)) rfl rfl rfl fun _ => rfl
  rw [prepareWith, prepareWith, henforce, henforce]
  refine (Agree.rfl (fun _ => Eq.refl _) (s.checkTables schema)).bind ?_
  intro _ _ _
  cases hlimits : limits.enforce s with
  | error e => exact .error e
  | ok q =>
      have hq := (Limits.enforce_eq_ok hlimits).1
      have hcheck' : (q.withFilter c).check = .ok () := by
        rw [hq]
        exact hcheck
      show Agree _ (do (q.withFilter c).check; _) (do (q.withFilter d).check; _)
      rw [hcheck', (Select.check_withFilter h).mp hcheck']
      refine (Select.plan_agree schema h).bind ?_
      intro p p' hplan
      refine .ok ?_
      intro store maxRows
      exact hplan.run (q.withFilter c) store maxRows

-- ── Outcome ─────────────────────────────────────────────────────────────────

/-- **The order and the grouping of operands do not matter.** Queries that differ only in a
    rearrangement of the condition pass the check together, and then have the same outcome: the
    same rows in the same order or the same failure, and the same engine and database after. -/
theorem executeQuery_rearranged (e : Engine) (db : Database) (s : Select) {c d : Condition}
    (h : c.Rearranged d) :
    ((s.withFilter c).check = .ok () ↔ (s.withFilter d).check = .ok ()) ∧
      ((s.withFilter c).check = .ok () →
        e.executeQuery db (s.withFilter c) = e.executeQuery db (s.withFilter d)) := by
  refine ⟨Select.check_withFilter h, ?_⟩
  intro hcheck
  rw [Engine.executeQuery, Engine.executeQuery, Engine.prepare, Engine.prepare]
  rcases e.snapshot.get db with ⟨_ | schema, snapshot, db'⟩
  · rfl
  · dsimp only
    have hagree := Engine.prepareWith_agree e.limits schema h hcheck
    generalize Engine.prepareWith e.limits schema (s.withFilter c) = x at hagree ⊢
    generalize Engine.prepareWith e.limits schema (s.withFilter d) = y at hagree ⊢
    cases hagree with
    | error error => rfl
    | ok hruns =>
        dsimp only
        rw [hruns]

/-- The users, read by age. -/
def Select.sampleByAge : Select :=
  { columns := [.star]
    source := "users"
    indexHint := some "by_age"
    joins := []
    filter := none
    groupBy := []
    having := none
    orderBy := []
    limit := none }

def Condition.sampleOver (years : Nat) : Condition :=
  .compare ⟨.column none "age", .gt, .number (.ofNat years)⟩

/-- The bound is taken from one condition here and from the other there. -/
theorem executeQuery_rearranged_sample :
    (Engine.sample.prepare Database.sample (Select.sampleByAge.withFilter
        (.and (.sampleOver 20) (.sampleOver 30)))).1.map (·.plan.access)
      ≠ (Engine.sample.prepare Database.sample (Select.sampleByAge.withFilter
        (.and (.sampleOver 30) (.sampleOver 20)))).1.map (·.plan.access) ∧
    Engine.sample.executeQuery Database.sample (Select.sampleByAge.withFilter
        (.and (.sampleOver 20) (.sampleOver 30)))
      = Engine.sample.executeQuery Database.sample (Select.sampleByAge.withFilter
        (.and (.sampleOver 30) (.sampleOver 20))) := by
  have hcheck : (Select.sampleByAge.withFilter
      (.and (.sampleOver 20) (.sampleOver 30))).check = .ok () :=
    eq_ok_of_toOption (by decide +kernel)
  refine ⟨?_, (executeQuery_rearranged Engine.sample Database.sample Select.sampleByAge
    (.andComm _ _)).2 hcheck⟩
  decide +kernel

end DocQuery
