import DocQuery.Engine.Basic
import DocQuery.Proofs.Plan.Access

/-!
# What a prepared query has passed

Each part of preparing a query is inverted once: `prepareWith_eq_ok` names the parts,
`enforce_eq_ok` says what limits write, `check_eq_ok` which faults are excluded, and
`plan_eq_ok` and `ofJoin_eq_ok` what the plan is made of. Without its index hint a query that
was accepted is accepted, and only the read of its first table and the order are planned anew
(`prepareWith_unhinted`).
-/

namespace DocQuery

variable {schema : Schema} {s : Select}

-- ── Limits ──────────────────────────────────────────────────────────────────

/-- Limits write a limit into a query, the given one or their own, and change nothing else. -/
theorem Limits.enforce_eq_ok {l : Limits} {q : Select} (h : l.enforce s = .ok q) :
    q = { s with limit := q.limit } ∧
      (s.isPlain = true → q.limit = some (s.limit.getD l.maxRows)) := by
  rw [enforce] at h
  cases hlimit : s.limit with
  | none =>
      rw [hlimit] at h
      dsimp only at h
      split at h
      · rename_i hplain
        rw [← Except.ok.inj h]
        refine ⟨rfl, ?_⟩
        intro hp
        rw [hp] at hplain
        exact nomatch hplain
      · split at h
        · exact nomatch h
        · rw [← Except.ok.inj h]
          exact ⟨rfl, fun _ => rfl⟩
  | some n =>
      rw [hlimit] at h
      dsimp only at h
      split at h
      · exact nomatch h
      · rw [← Except.ok.inj h]
        exact ⟨rfl, fun _ => hlimit⟩

/-- A query that is not plain stays as it is. -/
theorem Limits.eq_of_enforce {l : Limits} {q : Select} (hplain : s.isPlain = false)
    (h : l.enforce s = .ok q) : q = s := by
  rw [enforce, hplain] at h
  cases hlimit : s.limit with
  | none =>
      rw [hlimit] at h
      exact (Except.ok.inj h).symm
  | some n =>
      rw [hlimit] at h
      dsimp only at h
      split at h
      · exact nomatch h
      · exact (Except.ok.inj h).symm

/-- Limits look at the limit, the kind and the first table of a query. A change that keeps these
    can be made before or after. -/
theorem Limits.enforce_comm {l : Limits} {f : Select → Select} (hlimit : (f s).limit = s.limit)
    (hplain : (f s).isPlain = s.isPlain) (hsource : (f s).source = s.source)
    (hwrite : ∀ n, { f s with limit := some n } = f { s with limit := some n }) :
    l.enforce (f s) = (l.enforce s).map f := by
  have hwritten := hwrite l.maxRows
  dsimp only at hwritten
  rw [hsource] at hwritten
  rw [enforce, enforce, hlimit, hplain, hsource]
  cases s.limit with
  | none =>
      dsimp only
      split
      · rfl
      · split
        · rfl
        · exact congrArg Except.ok hwritten
  | some n =>
      dsimp only
      split <;> rfl

-- ── Checks ──────────────────────────────────────────────────────────────────

/-- No table is repeated, and none was there before. -/
theorem firstRepeated?_eq_none {seen ts : List String} (h : firstRepeated? seen ts = none) :
    ts.Nodup ∧ ∀ t ∈ ts, t ∉ seen := by
  induction ts generalizing seen with
  | nil => exact ⟨List.nodup_nil, fun t ht => (nomatch ht)⟩
  | cons t ts ih =>
      rw [firstRepeated?] at h
      split at h
      · exact nomatch h
      · rename_i hseen
        obtain ⟨hnodup, hnot⟩ := ih h
        rw [List.contains_iff_mem] at hseen
        refine ⟨List.nodup_cons.mpr ⟨?_, hnodup⟩, ?_⟩
        · intro hmem
          exact hnot t hmem (List.mem_append_right _ (List.mem_singleton_self t))
        · intro u hu
          rcases List.mem_cons.mp hu with rfl | hu
          · exact hseen
          · intro hmem
            exact hnot u hu (List.mem_append_left _ hmem)

/-- The faults that are excluded in a query that passes the check. -/
structure Select.Checked (s : Select) : Prop where
  nodup : s.tables.Nodup
  qualifiers : ∀ t ∈ s.qualifiers, t ∈ s.tables
  noCall : s.filter.any Condition.containsCall = false
  shape : s.checkShape = .ok ()

/-- The check of names passes if no table is repeated and every qualifier is a table. -/
theorem Select.checkQualifiers_eq_ok_iff : s.checkQualifiers = .ok () ↔
    firstRepeated? [] s.tables = none ∧ ∀ t ∈ s.qualifiers, t ∈ s.tables := by
  have hfind : (s.qualifiers.find? fun t => !s.tables.contains t) = none
      ↔ ∀ t ∈ s.qualifiers, t ∈ s.tables := by
    rw [List.find?_eq_none]
    refine forall₂_congr fun t _ => ?_
    rw [Bool.not_eq_true, Bool.not_eq_false', List.contains_iff_mem]
  rw [checkQualifiers, ← hfind]
  split
  · rename_i hrepeated
    rw [hrepeated]
    exact ⟨fun h => (nomatch h), fun h => (nomatch h.1)⟩
  · rename_i hrepeated
    split
    · rename_i hunknown
      rw [hunknown]
      exact ⟨fun h => (nomatch h), fun h => (nomatch h.2)⟩
    · rename_i hnone
      exact ⟨fun _ => ⟨hrepeated, hnone⟩, fun _ => rfl⟩

/-- The parts of the check. -/
theorem Select.check_eq_ok_iff : s.check = .ok () ↔
    s.checkQualifiers = .ok () ∧ s.filter.any Condition.containsCall = false ∧
      (∀ call ∈ s.selectedCalls ++ s.havingCalls, ∃ resolved, call.resolve = .ok resolved) ∧
      s.checkShape = .ok () := by
  have hcalls : (s.selectedCalls ++ s.havingCalls).forM (fun call => do
        let _ ← call.resolve) = (.ok () : Except QueryError Unit)
      ↔ ∀ call ∈ s.selectedCalls ++ s.havingCalls, ∃ resolved, call.resolve = .ok resolved := by
    rw [forM_eq_ok_iff]
    refine forall₂_congr fun call _ => ?_
    rw [bind_eq_ok_iff]
    exact ⟨fun ⟨resolved, h, _⟩ => ⟨resolved, h⟩, fun ⟨resolved, h⟩ => ⟨resolved, h, rfl⟩⟩
  rw [check, bind_eq_ok_iff]
  cases s.filter.any Condition.containsCall with
  | true =>
      constructor
      · rintro ⟨_, -, h⟩
        exact nomatch h
      · rintro ⟨-, h, -⟩
        exact nomatch h
  | false =>
      constructor
      · rintro ⟨⟨⟩, hqual, h⟩
        obtain ⟨⟨⟩, hresolved, hshape⟩ := bind_eq_ok_iff.mp h
        exact ⟨hqual, rfl, hcalls.mp hresolved, hshape⟩
      · rintro ⟨hqual, -, hresolved, hshape⟩
        exact ⟨(), hqual, bind_eq_ok_iff.mpr ⟨(), hcalls.mpr hresolved, hshape⟩⟩

/-- What passes the check has all that the check asks for. -/
theorem Select.check_eq_ok (h : s.check = .ok ()) : s.Checked := by
  obtain ⟨hqual, hcall, -, hshape⟩ := check_eq_ok_iff.mp h
  obtain ⟨hrepeated, hmem⟩ := checkQualifiers_eq_ok_iff.mp hqual
  exact ⟨(firstRepeated?_eq_none hrepeated).1, hmem, hcall, hshape⟩

/-- Every call of a query that passes the check is of a known function, with an argument that
    it takes. -/
theorem Select.resolve_of_check (h : s.check = .ok ()) {call : Call}
    (hcall : call ∈ s.selectedCalls ++ s.havingCalls) :
    ∃ resolved, call.resolve = .ok resolved :=
  (check_eq_ok_iff.mp h).2.2.1 call hcall

/-- A query that passes the check has no call if it is plain, and calls a function of a single
    row only if it is grouped. -/
theorem Select.Checked.isGrouped_of_isRowScoped (h : s.Checked) {call : Call}
    (hcall : call ∈ s.selectedCalls ++ s.havingCalls) (hrow : call.isRowScoped = true) :
    s.isGrouped = true := by
  have hshape := h.shape
  rw [checkShape] at hshape
  split at hshape
  · assumption
  · split at hshape
    · split at hshape
      · exact nomatch hshape
      · rename_i hfind
        exact absurd hrow (List.find?_eq_none.mp hfind call hcall)
    · split at hshape
      · exact nomatch hshape
      · rename_i hcolumns
        split at hshape
        · exact nomatch hshape
        · rename_i hhaving
          rcases List.mem_append.mp hcall with hselected | htested
          · obtain ⟨column, hcolumn, hc⟩ := List.mem_filterMap.mp hselected
            refine absurd (List.any_eq_true.mpr ⟨column, hcolumn, ?_⟩) hcolumns
            cases column with
            | call => rfl
            | _ => exact nomatch hc
          · rw [Bool.not_eq_true, Option.isSome_eq_false_iff, Option.isNone_iff_eq_none] at hhaving
            rw [havingCalls, hhaving] at htested
            exact nomatch htested

/-- A conjunct is one of the `WHERE` clause. -/
theorem Select.mem_conjuncts {c : Condition} (h : c ∈ s.conjuncts) :
    ∃ w, s.filter = some w ∧ c ∈ w.conjuncts := by
  rw [conjuncts] at h
  cases hw : s.filter with
  | none =>
      rw [hw] at h
      exact nomatch h
  | some w =>
      rw [hw] at h
      exact ⟨w, rfl, h⟩

/-- All conjuncts hold if the `WHERE` clause does. -/
theorem Select.all_holds_conjuncts (row : Row) (t : String) :
    s.conjuncts.all (·.holds row t) = s.filter.all (·.holds row t) := by
  rw [conjuncts]
  cases s.filter with
  | none => rfl
  | some w => exact Condition.all_holds_conjuncts w

/-- The condition on rows of a query that passes the check reads columns of its tables. -/
theorem Select.Checked.exists_column (h : s.Checked) {w : Condition} (hw : s.filter = some w)
    {cmp : Comparison} (hmem : cmp ∈ w.comparisons) :
    ∃ table field, cmp.subject = .column table field ∧ table.getD s.source ∈ s.tables := by
  cases hsubject : cmp.subject with
  | call call =>
      have hnone := h.noCall
      rw [hw] at hnone
      have hany : w.containsCall = true := by
        refine List.any_eq_true.mpr ⟨cmp, hmem, ?_⟩
        rw [hsubject]
        rfl
      exact absurd (hany.symm.trans hnone) Bool.noConfusion
  | column table field =>
      refine ⟨table, field, rfl, ?_⟩
      cases table with
      | none => exact List.mem_cons_self
      | some t =>
          refine h.qualifiers t ?_
          have ht : t ∈ w.comparisons.filterMap (·.subject.table?) := by
            refine List.mem_filterMap.mpr ⟨cmp, hmem, ?_⟩
            rw [hsubject]
            rfl
          simp only [Select.qualifiers, hw, List.mem_append, Option.map_some, Option.getD_some]
          exact Or.inl (Or.inl (Or.inl (Or.inr ht)))

/-- Every table of a checked statement is known. -/
theorem Select.checkTables_eq_ok (h : s.checkTables schema = .ok ()) :
    ∀ t ∈ s.tables, schema.hasTable t = true := by
  rw [checkTables, missingTable?] at h
  split at h
  · exact nomatch h
  · rename_i hfind
    intro t ht
    have := List.find?_eq_none.mp hfind t ht
    rwa [Bool.not_eq_true, Bool.not_eq_false'] at this

/-- A query whose tables are in the schema of a store reads tables of the store. -/
theorem Select.exists_table {store : Store} (h : s.checkTables store.schema = .ok ()) :
    ∀ table ∈ s.tables, ∃ t, store.tables.get? table = some t := by
  intro table htable
  exact Store.hasTable_schema.mp (checkTables_eq_ok h table htable)

-- ── Plans ───────────────────────────────────────────────────────────────────

/-- Both tables of a condition are joined by then. -/
theorem JoinCondition.tooEarly?_eq_none {table : String} {joined : List String}
    {c : JoinCondition} (h : c.tooEarly? table joined = none) :
    (c.leftTable = table ∨ c.leftTable ∈ joined) ∧
      (c.rightTable = table ∨ c.rightTable ∈ joined) := by
  rw [tooEarly?, List.find?_eq_none] at h
  have hside : ∀ t ∈ [c.leftTable, c.rightTable], t = table ∨ t ∈ joined := by
    intro t ht
    have hnot := h t ht
    by_cases heq : t = table
    · exact Or.inl heq
    · refine Or.inr ?_
      simpa [heq] using hnot
  exact ⟨hside _ List.mem_cons_self, hside _ (List.mem_cons_of_mem _ List.mem_cons_self)⟩

/-- The equality reads the joined table and tables before it only. -/
theorem JoinPlan.ofJoin_eq_ok {joined : List String} {conjuncts : List Condition} {join : Join}
    {p : JoinPlan} (h : ofJoin schema joined conjuncts join = .ok p) :
    p.table = join.table ∧ p.access = accessFor schema join conjuncts ∧
      p.pushdown = Condition.toFilter? conjuncts ∧
      p.conditions = join.conditions.map (JoinCondition.facing join.table) ∧
      ∀ c ∈ p.conditions, (c.leftTable = join.table ∨ c.leftTable ∈ joined) ∧
        (c.rightTable = join.table ∨ c.rightTable ∈ joined) := by
  rw [ofJoin] at h
  split at h
  · exact nomatch h
  · rename_i hfind
    rw [← Except.ok.inj h]
    refine ⟨rfl, rfl, rfl, rfl, ?_⟩
    intro c hc
    exact JoinCondition.tooEarly?_eq_none (List.findSome?_eq_none_iff.mp hfind c hc)

/-- Look-ups are planned through an index of the schema that has the key. -/
theorem JoinPlan.indexFields?_of_ofJoin {joined : List String} {conjuncts : List Condition}
    {join : Join} {p : JoinPlan} (h : ofJoin schema joined conjuncts join = .ok p)
    {index : String} {c : JoinCondition} (hstrategy : p.strategy = .indexedLookup index)
    (hprobe : p.probe? = some c) :
    ∃ fields, schema.indexFields? p.table index = some fields ∧ c.rightField ∈ fields := by
  rw [ofJoin] at h
  split at h
  · exact nomatch h
  · obtain rfl := Except.ok.inj h
    simp only [strategyFor] at hstrategy
    split at hstrategy
    · exact nomatch hstrategy
    · exact nomatch hstrategy
    · rename_i c' hinted hprobe' hhint
      split at hstrategy
      · rename_i hserved
        obtain rfl := JoinStrategy.indexedLookup.inj hstrategy
        obtain rfl := Option.some.inj (hprobe'.symm.trans hprobe)
        obtain ⟨fields, hfields, hhead⟩ := Option.bind_eq_some_iff.mp (beq_iff_eq.mp hserved.2)
        exact ⟨fields, hfields, List.mem_of_mem_head? hhead⟩
      · exact nomatch hstrategy

/-- Joins are planned one by one, each knowing the tables before it. -/
theorem Select.planJoins_cons_eq_ok {joined : List String} {join : Join} {joins : List Join}
    {plans : List JoinPlan} : s.planJoins schema joined (join :: joins) = .ok plans ↔
      ∃ p ps, plans = p :: ps ∧
        JoinPlan.ofJoin schema joined (s.joinedConjuncts join.table) join = .ok p ∧
        s.planJoins schema (joined ++ [join.table]) joins = .ok ps := by
  rw [planJoins]
  constructor
  · intro h
    obtain ⟨p, hp, h⟩ := bind_eq_ok_iff.mp h
    obtain ⟨ps, hps, h⟩ := bind_eq_ok_iff.mp h
    exact ⟨p, ps, (Except.ok.inj h).symm, hp, hps⟩
  · rintro ⟨p, ps, rfl, hp, hps⟩
    exact bind_eq_ok_iff.mpr ⟨p, hp, bind_eq_ok_iff.mpr ⟨ps, hps, rfl⟩⟩

/-- A plan of several joins is one of the first and one of the others. -/
theorem Select.planJoins_cons {joined : List String} {join : Join} {joins : List Join}
    {plans : List JoinPlan} (h : s.planJoins schema joined (join :: joins) = .ok plans) :
    ∃ p ps, plans = p :: ps ∧
      JoinPlan.ofJoin schema joined (s.joinedConjuncts join.table) join = .ok p ∧
      s.planJoins schema (joined ++ [join.table]) joins = .ok ps :=
  planJoins_cons_eq_ok.mp h

/-- Joins are planned one after the other. -/
theorem Select.planJoins_append_eq_ok {joined : List String} {before after : List Join}
    {plans : List JoinPlan} : s.planJoins schema joined (before ++ after) = .ok plans ↔
      ∃ done rest, plans = done ++ rest ∧ s.planJoins schema joined before = .ok done ∧
        s.planJoins schema (joined ++ before.map Join.table) after = .ok rest := by
  induction before generalizing joined plans with
  | nil =>
      rw [List.map_nil, List.append_nil, List.nil_append]
      constructor
      · intro h
        exact ⟨[], plans, rfl, rfl, h⟩
      · rintro ⟨done, rest, rfl, hdone, hrest⟩
        rw [← Except.ok.inj hdone]
        exact hrest
  | cons join before ih =>
      have hjoined : joined ++ (join :: before).map Join.table
          = joined ++ [join.table] ++ before.map Join.table := by
        rw [List.map_cons, List.append_assoc, List.singleton_append]
      rw [List.cons_append, planJoins_cons_eq_ok, hjoined]
      constructor
      · rintro ⟨p, ps, rfl, hp, hps⟩
        obtain ⟨done, rest, rfl, hdone, hrest⟩ := ih.mp hps
        exact ⟨p :: done, rest, rfl, planJoins_cons_eq_ok.mpr ⟨p, done, rfl, hp, hdone⟩, hrest⟩
      · rintro ⟨done, rest, rfl, hdone, hrest⟩
        obtain ⟨p, ps, rfl, hp, hps⟩ := planJoins_cons hdone
        exact ⟨p, ps ++ rest, rfl, hp, ih.mpr ⟨ps, rest, rfl, hps, hrest⟩⟩

/-- The tables are planned in the order in which they are joined. -/
theorem Select.tables_planJoins {joined : List String} {joins : List Join}
    {plans : List JoinPlan} (h : s.planJoins schema joined joins = .ok plans) :
    plans.map JoinPlan.table = joins.map Join.table := by
  induction joins generalizing joined plans with
  | nil =>
      rw [← Except.ok.inj h]
      rfl
  | cons join joins ih =>
      obtain ⟨p, ps, rfl, hp, hps⟩ := planJoins_cons h
      rw [List.map_cons, List.map_cons, (JoinPlan.ofJoin_eq_ok hp).1, ih hps]

theorem Select.length_planJoins {joined : List String} {joins : List Join}
    {plans : List JoinPlan} (h : s.planJoins schema joined joins = .ok plans) :
    plans.length = joins.length := by
  rw [← List.length_map JoinPlan.table, tables_planJoins h, List.length_map]

/-- Of the query only its condition counts in planning the joins. -/
theorem Select.planJoins_congr {s' : Select}
    (h : ∀ table, s'.joinedConjuncts table = s.joinedConjuncts table) (joined : List String)
    (joins : List Join) : s'.planJoins schema joined joins = s.planJoins schema joined joins := by
  induction joins generalizing joined with
  | nil => rfl
  | cons join joins ih => rw [planJoins, planJoins, ih, h]

/-- Every planned join is the plan of a join of the query, after some tables. -/
theorem Select.exists_ofJoin_of_mem {joined : List String} {joins : List Join}
    {plans : List JoinPlan} (h : s.planJoins schema joined joins = .ok plans) {p : JoinPlan}
    (hp : p ∈ plans) : ∃ join ∈ joins, ∃ before,
      JoinPlan.ofJoin schema before (s.joinedConjuncts join.table) join = .ok p := by
  induction joins generalizing joined plans with
  | nil =>
      rw [← Except.ok.inj h] at hp
      exact nomatch hp
  | cons join joins ih =>
      obtain ⟨q, qs, rfl, hq, hqs⟩ := planJoins_cons h
      rcases List.mem_cons.mp hp with rfl | hp
      · exact ⟨join, List.mem_cons_self, joined, hq⟩
      · obtain ⟨join', hmem, before, hbefore⟩ := ih hqs hp
        exact ⟨join', List.mem_cons_of_mem _ hmem, before, hbefore⟩

/-- The parts of a plan. -/
theorem Select.plan_eq_ok {p : Plan} (h : s.plan schema = .ok p) :
    p.table = s.source ∧ s.planAccess schema = .ok p.access ∧
      p.order = s.orderStrategy p.access ∧
      s.planJoins schema [s.source] s.joins = .ok p.joins ∧
      p.postJoinFilter = Condition.all? s.crossConjuncts := by
  rw [plan] at h
  obtain ⟨_, -, h⟩ := bind_eq_ok_iff.mp h
  obtain ⟨access, haccess, h⟩ := bind_eq_ok_iff.mp h
  obtain ⟨joins, hjoins, h⟩ := bind_eq_ok_iff.mp h
  rw [← Except.ok.inj h]
  exact ⟨rfl, haccess, rfl, hjoins, rfl⟩

-- ── Preparing ───────────────────────────────────────────────────────────────

/-- The parts of preparing a query. -/
theorem Engine.prepareWith_eq_ok {limits : Limits} {p : Prepared} :
    prepareWith limits schema s = .ok p ↔
      s.checkTables schema = .ok () ∧ limits.enforce s = .ok p.query ∧ p.query.check = .ok () ∧
        p.query.plan schema = .ok p.plan := by
  rw [prepareWith]
  constructor
  · intro h
    obtain ⟨_, htables, h⟩ := bind_eq_ok_iff.mp h
    obtain ⟨query, hlimit, h⟩ := bind_eq_ok_iff.mp h
    obtain ⟨_, hcheck, h⟩ := bind_eq_ok_iff.mp h
    obtain ⟨plan, hplan, h⟩ := bind_eq_ok_iff.mp h
    rw [← Except.ok.inj h]
    exact ⟨htables, hlimit, hcheck, hplan⟩
  · rintro ⟨htables, hlimit, hcheck, hplan⟩
    exact bind_eq_ok_iff.mpr ⟨_, htables, bind_eq_ok_iff.mpr ⟨_, hlimit,
      bind_eq_ok_iff.mpr ⟨_, hcheck, bind_eq_ok_iff.mpr ⟨_, hplan, rfl⟩⟩⟩⟩

-- ── Without the index hint ──────────────────────────────────────────────────

/-- The query without the index hint on its first table. -/
def Select.unhinted (s : Select) : Select :=
  { s with indexHint := none }

/-- The limits do not depend on hints. -/
theorem Limits.enforce_unhinted {l : Limits} {q : Select} (h : l.enforce s = .ok q) :
    l.enforce s.unhinted = .ok q.unhinted := by
  rw [enforce_comm (f := Select.unhinted) rfl rfl rfl (fun _ => rfl), h]
  rfl

/-- An accepted query is accepted without its index hint. Its joins are planned as before, its
    first table is read whole, and its order is settled for that read. -/
theorem Engine.prepareWith_unhinted {limits : Limits} {p : Prepared}
    (h : prepareWith limits schema s = .ok p) :
    ∃ p' : Prepared, prepareWith limits schema s.unhinted = .ok p' ∧
      p'.query = p.query.unhinted ∧ p'.plan.table = p.plan.table ∧
      p'.plan.access = .fullScan (Condition.toFilter? p.query.sourceConjuncts) ∧
      p'.plan.order = p.query.orderStrategy p'.plan.access ∧
      p'.plan.joins = p.plan.joins ∧ p'.plan.postJoinFilter = p.plan.postJoinFilter := by
  obtain ⟨htables, hlimits, hcheck, hplan⟩ := prepareWith_eq_ok.mp h
  obtain ⟨htable, -, -, hjoins, hpost⟩ := Select.plan_eq_ok hplan
  have htables' : p.query.checkTables schema = .ok () := by
    rw [Select.plan] at hplan
    obtain ⟨⟨⟩, hok, -⟩ := bind_eq_ok_iff.mp hplan
    exact hok
  have hplan' : p.query.unhinted.plan schema = .ok
      { table := p.query.source
        access := .fullScan (Condition.toFilter? p.query.sourceConjuncts)
        order := p.query.orderStrategy (.fullScan (Condition.toFilter? p.query.sourceConjuncts))
        joins := p.plan.joins
        postJoinFilter := Condition.all? p.query.crossConjuncts
        limit := p.query.limit } := by
    rw [Select.plan]
    refine bind_eq_ok_iff.mpr ⟨_, htables', bind_eq_ok_iff.mpr ⟨_, rfl, ?_⟩⟩
    refine bind_eq_ok_iff.mpr ⟨p.plan.joins, ?_, rfl⟩
    have hsame : ∀ table, p.query.unhinted.joinedConjuncts table
        = p.query.joinedConjuncts table := fun _ => rfl
    rw [Select.planJoins_congr hsame]
    exact hjoins
  refine ⟨⟨p.query.unhinted, _⟩, prepareWith_eq_ok.mpr ⟨htables, Limits.enforce_unhinted hlimits,
    hcheck, hplan'⟩, rfl, htable.symm, rfl, rfl, rfl, hpost.symm⟩

-- ── Engines ─────────────────────────────────────────────────────────────────

/-- The engine has no snapshot yet, or one of the store's present schema. -/
def Engine.IsCurrent (e : Engine) (db : Database) : Prop :=
  e.snapshot.schema = none ∨ e.snapshot.schema = some db.store.schema

/-- A schema that is got is the one in the snapshot or the store's own. Getting it leaves the
    store. -/
theorem Snapshot.get_eq_ok {snapshot snapshot' : Snapshot} {db db' : Database}
    (h : snapshot.get db = (.ok schema, snapshot', db')) :
    db'.store = db.store ∧ (snapshot.schema = some schema ∨
      snapshot.schema = .none ∧ schema = db.store.schema) := by
  rw [get] at h
  split at h
  · rename_i known hknown
    obtain ⟨hschema, h⟩ := Prod.mk.inj h
    obtain ⟨-, rfl⟩ := Prod.mk.inj h
    rw [← Except.ok.inj hschema]
    exact ⟨rfl, Or.inl hknown⟩
  · rename_i hnone
    rw [Database.readSchema] at h
    dsimp only at h
    split at h
    · rename_i hread
      split at hread
      · obtain ⟨hschema, h⟩ := Prod.mk.inj h
        obtain ⟨hread, hdb⟩ := Prod.mk.inj hread
        obtain ⟨-, rfl⟩ := Prod.mk.inj h
        rw [← Except.ok.inj hschema, ← Except.ok.inj hread, ← hdb]
        exact ⟨rfl, Or.inr ⟨hnone, rfl⟩⟩
      · exact nomatch (Prod.mk.inj hread).1
    · exact nomatch (Prod.mk.inj h).1

/-- The engine under other limits, with its snapshot. -/
def Engine.withLimits (e : Engine) (limits : Limits) : Engine :=
  { e with limits }

/-- The engine prepares and runs every query by the schema, and would do so under other limits. -/
def Engine.RunsBy (e : Engine) (db : Database) (schema : Schema) : Prop :=
  ∀ (limits : Limits) (s : Select),
    ((e.withLimits limits).prepare db s).1 = prepareWith limits schema s ∧
    ((e.withLimits limits).executeQuery db s).1
      = Outcome.ofChecked (prepareWith limits schema s) >>= fun p =>
          (p.plan.run p.query db.store limits.maxRows).result

/-- An engine that accepted a query has a schema to run by, the store's own if its snapshot is
    current. -/
theorem Engine.exists_runsBy {e : Engine} {db : Database} {p : Prepared}
    (h : (e.prepare db s).1 = .ok p) :
    ∃ schema, (e.IsCurrent db → schema = db.store.schema) ∧ e.RunsBy db schema := by
  rcases hget : e.snapshot.get db with ⟨_ | schema, snapshot, db'⟩
  · rw [prepare, hget] at h
    exact nomatch h
  · obtain ⟨hstore, hschema⟩ := Snapshot.get_eq_ok hget
    refine ⟨schema, ?_, ?_⟩
    · intro hcurrent
      rcases hschema with hknown | ⟨-, heq⟩
      · rcases hcurrent with hnone | hsome
        · rw [hnone] at hknown
          exact nomatch hknown
        · rw [hsome] at hknown
          exact (Option.some.inj hknown).symm
      · exact heq
    · intro limits s'
      have hget' : (e.withLimits limits).snapshot.get db = (.ok schema, snapshot, db') := hget
      rw [executeQuery, prepare, hget']
      refine ⟨rfl, ?_⟩
      dsimp only
      cases hp : prepareWith limits schema s' with
      | error error =>
          have hp' : prepareWith (e.withLimits limits).limits schema s' = .error error := hp
          rw [hp']
          rfl
      | ok p' =>
          have hp' : prepareWith (e.withLimits limits).limits schema s' = .ok p' := hp
          rw [hp']
          exact congrArg (fun store => (p'.plan.run p'.query store _).result) hstore

/-- An engine that accepted a query prepares and runs every query by its schema. -/
theorem Engine.exists_schema {e : Engine} {db : Database} {p : Prepared}
    (h : (e.prepare db s).1 = .ok p) :
    ∃ schema, (e.IsCurrent db → schema = db.store.schema) ∧ ∀ s' : Select,
      (e.prepare db s').1 = prepareWith e.limits schema s' ∧
      (e.executeQuery db s').1 = Outcome.ofChecked (prepareWith e.limits schema s') >>= fun p' =>
        (p'.plan.run p'.query db.store e.limits.maxRows).result := by
  obtain ⟨schema, hschema, hruns⟩ := exists_runsBy h
  exact ⟨schema, hschema, hruns e.limits⟩

end DocQuery
