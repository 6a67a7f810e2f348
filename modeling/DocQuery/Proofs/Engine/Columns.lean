import DocQuery.Proofs.Engine.Found
import DocQuery.Proofs.Result.Projection

/-!
# Other columns for the same rows

The columns of a plain query say how its rows are shown and nothing about which they are. With
other columns of its tables it is accepted, too (`check_withColumns`), has the same plan
(`plan_withColumns`), and shows the same rows through them (`executeQuery_withColumns`).
-/

namespace DocQuery

/-- A column with a call is one. -/
theorem Column.isCall_of_call? {c : Column} {call : Call} (h : c.call? = some call) :
    c.isCall = true := by
  cases c with
  | call _ _ => rfl
  | star | tableStar _ | field _ _ _ => exact nomatch h

namespace Select

variable {s : Select} {columns : List Column} {schema : Schema}

/-- The query with other columns. -/
def withColumns (s : Select) (columns : List Column) : Select :=
  { s with columns }

/-- Columns that show rows of the query's tables. -/
structure MayShow (s : Select) (columns : List Column) : Prop where
  nonempty : columns ≠ []
  noCall : ∀ c ∈ columns, c.isCall = false
  qualifiers : ∀ t ∈ columns.filterMap Column.qualifier?, t ∈ s.tables

theorem mayShow_star (s : Select) : s.MayShow [.star] :=
  ⟨List.cons_ne_nil _ _, List.forall_mem_singleton.mpr rfl, fun _ h => nomatch h⟩

theorem mayShow_tableStar {t : String} (ht : t ∈ s.tables) : s.MayShow [.tableStar t] :=
  ⟨List.cons_ne_nil _ _, List.forall_mem_singleton.mpr rfl, List.forall_mem_singleton.mpr ht⟩

/-- Limits leave a plain query plain and its tables as they are. -/
theorem MayShow.enforced {l : Limits} {q : Select} (h : s.MayShow columns)
    (hplain : s.isPlain = true) (hlimits : l.enforce s = .ok q) :
    q.isPlain = true ∧ q.MayShow columns := by
  rw [(Limits.enforce_eq_ok hlimits).1]
  exact ⟨hplain, h.nonempty, h.noCall, h.qualifiers⟩

/-- Other columns without calls leave a plain statement plain. -/
theorem isPlain_withColumns (hplain : s.isPlain = true) (h : s.MayShow columns) :
    (s.withColumns columns).isPlain = true := by
  rw [isPlain, Bool.and_eq_true, Bool.not_eq_true', Bool.not_eq_true'] at hplain ⊢
  refine ⟨hplain.1, ?_⟩
  rw [isAggregateOnly, Bool.and_eq_false_iff]
  obtain ⟨c, hc⟩ := List.exists_mem_of_ne_nil _ h.nonempty
  refine Or.inr (List.all_eq_false.mpr ⟨c, hc, ?_⟩)
  rw [h.noCall c hc]
  exact Bool.false_ne_true

/-- Of a plain statement, the check of shapes asks for two things only. -/
theorem checkShape_of_isPlain (h : s.isPlain = true) :
    s.checkShape = if s.columns.any Column.isCall then .error .mixedSelection
      else if s.having.isSome then .error .havingWithoutGroups else .ok () := by
  rw [isPlain, Bool.and_eq_true, Bool.not_eq_true', Bool.not_eq_true'] at h
  rw [checkShape, h.1, h.2]
  rfl

/-- Other columns without calls pass the check as well. -/
theorem check_withColumns (hcheck : s.check = .ok ()) (hplain : s.isPlain = true)
    (h : s.MayShow columns) : (s.withColumns columns).check = .ok () := by
  obtain ⟨hqual, hwhere, hcalls, hshape⟩ := check_eq_ok_iff.mp hcheck
  obtain ⟨hrepeated, hknown⟩ := checkQualifiers_eq_ok_iff.mp hqual
  refine check_eq_ok_iff.mpr ⟨checkQualifiers_eq_ok_iff.mpr ⟨hrepeated, ?_⟩, hwhere, ?_, ?_⟩
  · intro t ht
    simp only [qualifiers, withColumns, List.mem_append] at ht
    by_cases hcolumn : t ∈ columns.filterMap Column.qualifier?
    · exact h.qualifiers t hcolumn
    · refine hknown t ?_
      simp only [qualifiers, List.mem_append]
      tauto
  · intro call hcall
    rcases List.mem_append.mp hcall with hselected | htested
    · obtain ⟨c, hc, hsome⟩ := List.mem_filterMap.mp hselected
      exact absurd (Column.isCall_of_call? hsome) (ne_true_of_eq_false (h.noCall c hc))
    · exact hcalls call (List.mem_append_right _ htested)
  · have hany : (s.withColumns columns).columns.any Column.isCall = false :=
      List.any_eq_false.mpr fun c hc => ne_true_of_eq_false (h.noCall c hc)
    rw [checkShape_of_isPlain hplain] at hshape
    rw [checkShape_of_isPlain (isPlain_withColumns hplain h), hany]
    split at hshape
    · cases hshape
    · exact hshape

theorem plan_withColumns (hplain : s.isPlain = true) (h : s.MayShow columns) :
    (s.withColumns columns).plan schema = s.plan schema := by
  have hsame : ∀ table, (s.withColumns columns).joinedConjuncts table = s.joinedConjuncts table :=
    fun _ => rfl
  have horder : (s.withColumns columns).orderStrategy = s.orderStrategy := by
    funext access
    rw [orderStrategy, orderStrategy, isPlain_withColumns hplain h, hplain]
    rfl
  have hparts : (s.withColumns columns).plan schema = (do
      s.checkTables schema
      let access ← s.planAccess schema
      let joins ← (s.withColumns columns).planJoins schema [s.source] s.joins
      .ok ⟨s.source, access, (s.withColumns columns).orderStrategy access, joins,
        Condition.all? s.crossConjuncts, s.limit⟩) := rfl
  rw [hparts, planJoins_congr hsame, horder]
  rfl

end Select

-- ── The same rows ───────────────────────────────────────────────────────────

variable {s : Select} {columns : List Column} {p : Prepared}

/-- Other columns without calls change none of the rows that are returned to be shown. -/
theorem Plan.returned_withColumns (p : Plan) (hplain : s.isPlain = true) (h : s.MayShow columns)
    (store : Store) (maxRows : Nat) :
    p.returned (s.withColumns columns) store maxRows = p.returned s store maxRows := by
  have hcount : p.pushedLimit (s.withColumns columns) = p.pushedLimit s := by
    rw [pushedLimit, pushedLimit, Select.isPlain_withColumns hplain h, hplain]
    rfl
  rw [returned, returned, held, held, hcount]
  rfl

/-- Other columns without calls are prepared with the same plan. -/
theorem Engine.prepareWith_withColumns {limits : Limits} {schema : Schema}
    (hprepared : prepareWith limits schema s = .ok p) (hplain : s.isPlain = true)
    (h : s.MayShow columns) :
    prepareWith limits schema (s.withColumns columns)
      = .ok ⟨p.query.withColumns columns, p.plan⟩ := by
  obtain ⟨htables, hlimits, hcheck, hplan⟩ := prepareWith_eq_ok.mp hprepared
  obtain ⟨hplain', h'⟩ := h.enforced hplain hlimits
  refine prepareWith_eq_ok.mpr ⟨htables, ?_, Select.check_withColumns hcheck hplain' h',
    (Select.plan_withColumns hplain' h').trans hplan⟩
  rw [Limits.enforce_comm (f := (·.withColumns columns)) rfl
    ((Select.isPlain_withColumns hplain h).trans hplain.symm) rfl fun _ => rfl, hlimits]
  rfl

/-- With other columns an accepted plain query is accepted with the same plan, and shows the same
    rows through them. -/
theorem Engine.executeQuery_withColumns {e : Engine} {db : Database}
    (hprepared : (e.prepare db s).1 = .ok p) (hplain : s.isPlain = true)
    (h : s.MayShow columns) :
    (e.prepare db (s.withColumns columns)).1 = .ok ⟨p.query.withColumns columns, p.plan⟩ ∧
      (e.executeQuery db (s.withColumns columns)).1
        = (p.plan.returned p.query db.store e.limits.maxRows).result.map
            (·.map (projectRow columns s.source)) := by
  obtain ⟨_, -, hprepare, -, -⟩ := prepare_plain hprepared hplain
  obtain ⟨-, hlimits, -, -⟩ := prepareWith_eq_ok.mp hprepare
  obtain ⟨hplain', h'⟩ := h.enforced hplain hlimits
  obtain ⟨_, -, hruns⟩ := exists_schema hprepared
  have hother : (e.prepare db (s.withColumns columns)).1
      = .ok ⟨p.query.withColumns columns, p.plan⟩ := by
    rw [(hruns _).1]
    rw [(hruns s).1] at hprepared
    exact prepareWith_withColumns hprepared hplain h
  obtain ⟨_, -, -, -, hrun⟩ := prepare_plain hother (Select.isPlain_withColumns hplain h)
  refine ⟨hother, hrun.trans ?_⟩
  rw [Plan.returned_withColumns p.plan hplain' h']
  rfl

end DocQuery
