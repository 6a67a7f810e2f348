import DocQuery.Proofs.Engine.Hinted
import DocQuery.Proofs.Engine.Limit
import DocQuery.Proofs.Engine.Safety

/-!
# An index hint on a join

A hint on a joined table is passed over where a plan cannot use it, so it never makes a query
be refused. It is planned by the engine's snapshot of the schema, though, and run on the store
as it is. Look-ups that the store refuses give way to one read of the table, but that read was
planned with the same hint: if the store lacks the index, it fails as well
(`joinHint_fails_on_stale_snapshot`). `executeQuery_joinHint` says when exactly the hint does
no harm, and that the rows it finds are those found without it.
-/

namespace DocQuery

variable {s : Select} {schema : Schema}

-- ── Planning with and without the hint ──────────────────────────────────────

/-- The join without its index hint. -/
def Join.unhinted (join : Join) : Join :=
  { join with indexHint := none }

/-- The query with other joins. -/
def Select.withJoins (s : Select) (joins : List Join) : Select :=
  { s with joins }

/-- What the plan of a join with its hint has in common with the plan without: the table, the
    equalities and the pushed-down filter. Without the hint the table is read whole. -/
structure JoinPlan.Unhints (p p' : JoinPlan) : Prop where
  table : p'.table = p.table
  conditions : p'.conditions = p.conditions
  pushdown : p'.pushdown = p.pushdown
  access : p'.access = .fullScan p'.pushdown
  strategy : ∀ index, p'.strategy ≠ .indexedLookup index

/-- A hint never makes a join be refused. -/
theorem JoinPlan.ofJoin_of_unhinted {joined : List String} {conjuncts : List Condition}
    {join : Join} {p' : JoinPlan} (h : ofJoin schema joined conjuncts join.unhinted = .ok p') :
    ∃ p, ofJoin schema joined conjuncts join = .ok p ∧ p.Unhints p' := by
  rw [ofJoin] at h ⊢
  dsimp only [Join.unhinted] at h
  split at h
  · cases h
  · rename_i hfind
    obtain rfl := Except.ok.inj h
    refine ⟨_, rfl, rfl, rfl, rfl, rfl, ?_⟩
    intro index
    dsimp only [strategyFor]
    cases JoinCondition.probe? join.table (join.conditions.map (JoinCondition.facing join.table))
      <;> exact JoinStrategy.noConfusion

/-- A planner reads a joined table by the conditions that it pushes down to it. -/
theorem Select.selectsPushdown_of_planJoins {joined : List String} {joins : List Join}
    {plans : List JoinPlan} (h : s.planJoins schema joined joins = .ok plans) :
    ∀ p ∈ plans, p.SelectsPushdown := by
  intro p hp
  obtain ⟨join, -, before, hplan⟩ := exists_ofJoin_of_mem h hp
  obtain ⟨-, haccess, hpush, -⟩ := JoinPlan.ofJoin_eq_ok hplan
  refine ⟨_, ?_, hpush⟩
  rw [haccess]
  exact JoinPlan.selects_accessFor schema join _

section Planning

variable {before after : List Join} {join : Join} {limits : Limits}

theorem Limits.enforce_withJoins {joins : List Join} {q : Select}
    (h : limits.enforce (s.withJoins joins) = .ok q) :
    limits.enforce s = .ok (q.withJoins s.joins) := by
  have hmap : limits.enforce (s.withJoins joins) = (limits.enforce s).map (·.withJoins joins) :=
    enforce_comm (f := (·.withJoins joins)) rfl rfl rfl fun _ => rfl
  rw [hmap] at h
  obtain ⟨q', hq', rfl⟩ := map_eq_ok_iff.mp h
  rw [hq', (enforce_eq_ok hq').1]
  rfl

theorem Select.tables_withJoins (hjoins : s.joins = before ++ join :: after) :
    (s.withJoins (before ++ join.unhinted :: after)).tables = s.tables := by
  simp only [tables, withJoins, hjoins, List.map_append, List.map_cons, Join.unhinted]

theorem Select.checkTables_withJoins (hjoins : s.joins = before ++ join :: after) :
    (s.withJoins (before ++ join.unhinted :: after)).checkTables schema
      = s.checkTables schema := by
  rw [checkTables, checkTables, missingTable?, missingTable?, tables_withJoins hjoins]

/-- The check of a query looks at the names of its joined tables and at their equalities. -/
theorem Select.check_withJoins (hjoins : s.joins = before ++ join :: after) :
    (s.withJoins (before ++ join.unhinted :: after)).check = s.check := by
  have hqualifiers : (s.withJoins (before ++ join.unhinted :: after)).qualifiers
      = s.qualifiers := by
    simp only [qualifiers, withJoins, hjoins, List.flatMap_append, List.flatMap_cons,
      Join.unhinted]
  rw [check, check, checkQualifiers, checkQualifiers, tables_withJoins hjoins, hqualifiers]
  rfl

/-- A query is planned with a hint on a join as it is without, but for that join. -/
theorem Select.plan_of_unhinted_join (hjoins : s.joins = before ++ join :: after) {p' : Plan}
    (h : (s.withJoins (before ++ join.unhinted :: after)).plan schema = .ok p') :
    ∃ done plan plan' rest, s.plan schema = .ok { p' with joins := done ++ plan :: rest } ∧
      p'.joins = done ++ plan' :: rest ∧ plan.Unhints plan' ∧ done.length = before.length ∧
      plan.table = join.table ∧ ∀ q ∈ done ++ plan :: rest, q.SelectsPushdown := by
  rw [plan, checkTables_withJoins hjoins] at h
  obtain ⟨⟨⟩, htables, h⟩ := bind_eq_ok_iff.mp h
  obtain ⟨access, haccess, h⟩ := bind_eq_ok_iff.mp h
  obtain ⟨joins, hplans, h⟩ := bind_eq_ok_iff.mp h
  have hsame : ∀ table, (s.withJoins (before ++ join.unhinted :: after)).joinedConjuncts table
      = s.joinedConjuncts table := fun _ => rfl
  rw [planJoins_congr hsame] at hplans
  -- the joins are planned as before, up to the one with the hint and after it
  obtain ⟨done, rest', hjoined, hdone, hrest⟩ := planJoins_append_eq_ok.mp hplans
  obtain ⟨plan', rest, rfl, hplan', hrest⟩ := planJoins_cons hrest
  obtain ⟨plan, hof, hunhints⟩ := JoinPlan.ofJoin_of_unhinted hplan'
  have hplanned : s.planJoins schema [s.source] s.joins = .ok (done ++ plan :: rest) := by
    rw [hjoins]
    exact planJoins_append_eq_ok.mpr ⟨done, plan :: rest, rfl, hdone,
      planJoins_cons_eq_ok.mpr ⟨plan, rest, rfl, hof, hrest⟩⟩
  have horder : (s.withJoins (before ++ join.unhinted :: after)).orderStrategy access
      = s.orderStrategy access := by
    have hempty : (s.withJoins (before ++ join.unhinted :: after)).joins.isEmpty
        = s.joins.isEmpty := by
      rw [hjoins]
      cases before <;> rfl
    rw [orderStrategy, orderStrategy, hempty]
    rfl
  obtain rfl := Except.ok.inj h
  refine ⟨done, plan, plan', rest, ?_, hjoined, hunhints, length_planJoins hdone,
    (JoinPlan.ofJoin_eq_ok hof).1, selectsPushdown_of_planJoins hplanned⟩
  rw [horder, Select.plan]
  exact bind_eq_ok_iff.mpr ⟨(), htables, bind_eq_ok_iff.mpr ⟨access, haccess,
    bind_eq_ok_iff.mpr ⟨_, hplanned, rfl⟩⟩⟩

/-- A query that is accepted without a hint on a join is accepted with it, and planned the same
    but for that join. -/
theorem Engine.prepareWith_of_unhinted_join (hjoins : s.joins = before ++ join :: after)
    {p' : Prepared}
    (h : prepareWith limits schema (s.withJoins (before ++ join.unhinted :: after)) = .ok p') :
    ∃ p done plan plan' rest, prepareWith limits schema s = .ok p ∧
      p.query = p'.query.withJoins s.joins ∧
      p.plan = { p'.plan with joins := done ++ plan :: rest } ∧
      p'.plan.joins = done ++ plan' :: rest ∧ plan.Unhints plan' ∧
      done.length = before.length ∧ plan.table = join.table ∧
      ∀ q ∈ done ++ plan :: rest, q.SelectsPushdown := by
  obtain ⟨htables, hlimits, hcheck, hplan⟩ := prepareWith_eq_ok.mp h
  rw [Select.checkTables_withJoins hjoins] at htables
  -- the query that is run is the given one with a limit
  have hquery : p'.query
      = (p'.query.withJoins s.joins).withJoins (before ++ join.unhinted :: after) := by
    rw [(Limits.enforce_eq_ok hlimits).1]
    rfl
  have hjoins' : (p'.query.withJoins s.joins).joins = before ++ join :: after := hjoins
  rw [hquery, Select.check_withJoins hjoins'] at hcheck
  rw [hquery] at hplan
  obtain ⟨done, plan, plan', rest, hplanned, hrest⟩ := Select.plan_of_unhinted_join hjoins' hplan
  exact ⟨⟨_, _⟩, done, plan, plan', rest, prepareWith_eq_ok.mpr
    ⟨htables, Limits.enforce_withJoins hlimits, hcheck, hplanned⟩, rfl, rfl, hrest⟩

end Planning

-- ── Running with and without the hint ───────────────────────────────────────

namespace Plan

variable {p : Plan} {store : Store}

/-- The rows that are held after the first joins. -/
def heldAfter (p : Plan) (store : Store) (done : List JoinPlan) : Reading (List Row) := do
  let source ← store.fetch p.table p.access none none
  done.foldlM (joinRows store) (source.map (Row.qualified p.table))

/-- What a plan finds, told at one of its joins: the rows held before it, its matches, and what
    the later joins and the remaining condition make of them. -/
theorem found_eq {done rest : List JoinPlan} {join : JoinPlan}
    (hjoins : p.joins = done ++ join :: rest) : (p.found store).result
      = (p.heldAfter store done).result >>= fun left => (joinRows store left join).result >>=
          fun mid => (rest.foldlM (joinRows store) mid).result >>= fun all =>
            .ok (all.filter fun row => p.postJoinFilter.all (·.holds row p.table)) := by
  have hne : p.joins.isEmpty = false := by
    rw [hjoins]
    cases done <;> rfl
  rw [found, heldAfter, Reading.result_bind, Reading.result_bind, bind_assoc]
  refine congrArg _ (funext fun source => ?_)
  rw [joinedRows, hne, hjoins]
  show (List.foldlM (joinRows store) _ (done ++ join :: rest) >>= _).result = _
  rw [Reading.result_bind, Reading.result_foldlM_append, bind_assoc]
  refine congrArg _ (funext fun left => ?_)
  rw [List.foldlM_cons, Reading.result_bind, bind_assoc]
  rfl

/-- With joins nothing is cut or ordered by the store: a run shows what the plan finds. -/
theorem run_joined (hjoins : p.joins ≠ []) (hdirection : p.nativeDirection = none) (maxRows : Nat) :
    (p.run s store maxRows).result
      = (p.found store).result >>= fun rows => (p.showRows s rows).map (·.take maxRows) := by
  have hcount : p.pushedLimit s = none := by
    rw [pushedLimit]
    refine if_neg ?_
    rw [List.isEmpty_eq_false_iff.mpr hjoins, Bool.and_false, Bool.false_and]
    exact Bool.false_ne_true
  rw [run_eq, held_eq_found hcount hdirection]

end Plan

/-- The store answers the plan of a join for rows from before: its look-ups, or else its
    read. -/
def JoinPlan.IsAnswered (join : JoinPlan) (store : Store) (left : List Row) : Prop :=
  join.LooksUp store left ∨ store.Opens join.table join.access

/-- A join finds with a hint the rows that it finds without. -/
theorem JoinPlan.Unhints.joinRows_perm {plan plan' : JoinPlan} (h : plan.Unhints plan')
    {store : Store} (hselects : plan.SelectsPushdown)
    (hkeys : ∀ table t, store.tables.get? table = some t → ∀ row ∈ t.rows, row.Keyable)
    {left mid mid' : List Row} (hleft : ∀ row ∈ left, row.Keyable)
    (hmid : (joinRows store left plan).result = .ok mid)
    (hmid' : (joinRows store left plan').result = .ok mid') :
    mid.Perm mid' ∧ ∀ row ∈ mid, row.Keyable := by
  obtain ⟨conjuncts, hselects, hpush⟩ := hselects
  obtain ⟨right, hright, hmatches⟩ := exists_right plan.table conjuncts hkeys
  have hpush' : plan'.pushdown = Condition.toFilter? conjuncts := h.pushdown.trans hpush
  have hselects' : plan'.access.Selects conjuncts := by
    rw [h.access, hpush']
    exact AccessPath.selects_fullScan conjuncts
  have hsame : plan'.matchesOf left right = plan.matchesOf left right := by
    rw [matchesOf, matchesOf, probe?, probe?, h.table, h.conditions]
  have hmatched := hmatches plan left mid rfl hselects hpush hleft hmid
  have hmatched' := hmatches plan' left mid' h.table hselects' hpush' hleft hmid'
  rw [hsame] at hmatched'
  refine ⟨hmatched.trans hmatched'.symm, ?_⟩
  intro row hrow
  exact keyable_matchesOf hleft hright row (hmatched.mem_iff.mp hrow)

/-- The rows that are held after some joins have keys that tell their values apart. -/
theorem Plan.keyable_heldAfter {p : Plan} {store : Store} {done : List JoinPlan} {left : List Row}
    (hdone : ∀ join ∈ done, join.SelectsPushdown)
    (hkeys : ∀ table t, store.tables.get? table = some t → ∀ row ∈ t.rows, row.Keyable)
    (h : (p.heldAfter store done).result = .ok left) : ∀ row ∈ left, row.Keyable := by
  have hfold : ∀ source : List Row, (∀ row ∈ source, row.Keyable) →
      (done.foldlM (joinRows store) source).result = .ok left → ∀ row ∈ left, row.Keyable := by
    clear h
    induction done with
    | nil =>
        intro source hsource hleft
        rw [← Except.ok.inj hleft]
        exact hsource
    | cons join done ih =>
        intro source hsource hleft
        rw [List.foldlM_cons] at hleft
        obtain ⟨mid, hmid, hleft⟩ := Reading.result_bind_eq_ok hleft
        have hagree := (hdone join List.mem_cons_self).agree_joinRows hkeys hsource
          (List.Perm.refl _)
        rw [hmid] at hagree
        cases hagree with
        | ok h => exact ih (fun j hj => hdone j (List.mem_cons_of_mem _ hj)) mid h.2 hleft
  obtain ⟨source, hsource, hleft⟩ := Reading.result_bind_eq_ok h
  refine hfold _ ?_ hleft
  intro row hrow
  obtain ⟨stored, hstored, rfl⟩ := List.mem_map.mp hrow
  obtain ⟨t, ht, hmem⟩ := Store.mem_of_fetch hsource hstored
  exact (hkeys _ t ht stored hmem).qualified _

-- ── The hint and the rows found ─────────────────────────────────────────────

/-- Two plans that differ in the hint on one join: with the hint nothing is refused just when that
    join is answered, and what is found are the rows found without it. -/
theorem Plan.found_joinHint {p p' : Plan} {store : Store} {done rest : List JoinPlan}
    {plan plan' : JoinPlan} (hp : p = { p' with joins := done ++ plan :: rest })
    (hp' : p'.joins = done ++ plan' :: rest) (hunhints : plan.Unhints plan')
    (hselects : ∀ q ∈ done ++ plan :: rest, q.SelectsPushdown)
    (hkeys : ∀ table t, store.tables.get? table = some t → ∀ row ∈ t.rows, row.Keyable)
    {rows' : List Row} (h : (p'.found store).result = .ok rows') :
    ∃ left, (p.heldAfter store done).result = .ok left ∧
      ((p.found store).result.Granted ↔ plan.IsAnswered store left) ∧
      ∀ rows, (p.found store).result = .ok rows → rows.Perm rows' := by
  rw [found_eq hp'] at h
  obtain ⟨left, hleft, h⟩ := bind_eq_ok_iff.mp h
  obtain ⟨mid', hmid', h⟩ := bind_eq_ok_iff.mp h
  obtain ⟨all', hall', hrows'⟩ := bind_eq_ok_iff.mp h
  have hheld : (p.heldAfter store done).result = .ok left := by
    rw [hp]
    exact hleft
  have hfound : (p.found store).result = (joinRows store left plan).result >>= fun mid =>
      (rest.foldlM (joinRows store) mid).result >>= fun all =>
        .ok (all.filter fun row => p'.postJoinFilter.all (·.holds row p'.table)) := by
    rw [found_eq (by rw [hp]), hheld, hp]
    rfl
  have hplan : plan.SelectsPushdown := hselects plan (by simp)
  have hrest : ∀ q ∈ rest, q.SelectsPushdown := fun q hq => hselects q (by simp [hq])
  have hkeyable := keyable_heldAfter (fun q hq => hselects q (by simp [hq])) hkeys hleft
  -- once the join is made, what comes after it goes as it does without the hint
  have hafter : ∀ mid, (joinRows store left plan).result = .ok mid →
      ∃ all, (rest.foldlM (joinRows store) mid).result = .ok all ∧ all.Perm all' := by
    intro mid hmid
    obtain ⟨hperm, hmidKeyable⟩ := hunhints.joinRows_perm hplan hkeys hkeyable hmid hmid'
    have hagree := agree_foldlM_joinRows hrest hkeys hmidKeyable hperm
    rw [hall'] at hagree
    generalize (rest.foldlM (joinRows store) mid).result = x at hagree
    cases hagree with
    | ok hperm => exact ⟨_, rfl, hperm⟩
  refine ⟨left, hheld, ?_, ?_⟩
  · rw [JoinPlan.IsAnswered, ← granted_joinRows_iff, hfound]
    refine Outcome.granted_bind_iff fun mid hmid => ?_
    obtain ⟨all, hall, -⟩ := hafter mid hmid
    rw [hall]
    exact Outcome.granted_ok _
  · intro rows hrows
    rw [hfound] at hrows
    obtain ⟨mid, hmid, hrows⟩ := bind_eq_ok_iff.mp hrows
    obtain ⟨all, hall, hperm⟩ := hafter mid hmid
    rw [hall] at hrows
    rw [← Except.ok.inj hrows, ← Except.ok.inj hrows']
    exact hperm.filter _

/-- A plain query that is not cut shows each of its rows, in some order. -/
theorem Plan.perm_of_showRows {p : Plan} {rows out : List Row} {maxRows : Nat}
    (hplain : s.isPlain = true) (hlimit : ∀ n, s.limit = some n → rows.length ≤ n)
    (hmax : rows.length ≤ maxRows) (h : (p.showRows s rows).map (·.take maxRows) = .ok out) :
    out.Perm (rows.map (projectRow s.columns s.source)) := by
  rw [showRows_of_isPlain hplain] at h
  obtain ⟨projected, hprojected, rfl⟩ := map_eq_ok_iff.mp h
  obtain ⟨shown, hshown, rfl⟩ := map_eq_ok_iff.mp hprojected
  have hperm := (shown_perm (Outcome.ofSort_eq_ok_iff.mp hshown) hlimit).map
    (projectRow s.columns s.source)
  rw [List.take_of_length_le]
  · exact hperm
  · rw [hperm.length_eq, List.length_map]
    exact hmax

/-- With joins the engine shows what the plan finds. -/
theorem Engine.executeQuery_joined {e : Engine} {db : Database} {p : Prepared}
    (hp : (e.prepare db s).1 = .ok p) (hne : p.plan.joins ≠ []) :
    (e.executeQuery db s).1 = (p.plan.found db.store).result >>= fun rows =>
      (p.plan.showRows p.query rows).map (·.take e.limits.maxRows) := by
  obtain ⟨schema, -, hruns⟩ := Engine.exists_schema hp
  obtain ⟨-, -, -, hplanned⟩ := Engine.prepareWith_eq_ok.mp ((hruns s).1.symm.trans hp)
  rw [Engine.executeQuery_eq, hp]
  exact Plan.run_joined hne (Select.nativeDirection_eq_none hplanned hne) _

/-- **What a hint on a join does to a query that runs without it**, whatever schema the engine
    holds. The query is accepted with the hint, too. It is refused just when the store does not
    answer the hinted plan of that join for the rows held before it, by look-ups or by its read, and
    a snapshot of the present schema makes sure that it does. Rows are then found if no read panics,
    and shown if they can be sorted. They are the same but for the order, and so is the result of a
    plain query that is not cut. -/
theorem executeQuery_joinHint {e : Engine} {db : Database}
    (hstore : db.store.Reachable Document.IsJson) {before after : List Join} {join : Join}
    (hjoins : s.joins = before ++ join :: after) {out' : List Row}
    (h : (e.executeQuery db (s.withJoins (before ++ join.unhinted :: after))).1 = .ok out') :
    ∃ (p p' : Prepared) (done rest : List JoinPlan) (plan : JoinPlan) (left rows' : List Row),
      (e.prepare db s).1 = .ok p ∧ p.plan.joins = done ++ plan :: rest ∧
      done.length = before.length ∧ plan.table = join.table ∧
      (p.plan.heldAfter db.store done).result = .ok left ∧
      ((e.executeQuery db s).1.Granted ↔ plan.IsAnswered db.store left) ∧
      (e.IsCurrent db → plan.IsAnswered db.store left) ∧
      (e.prepare db (s.withJoins (before ++ join.unhinted :: after))).1 = .ok p' ∧
      (p'.plan.found db.store).result = .ok rows' ∧
      (db.store.Sortable → plan.IsAnswered db.store left →
        ∃ rows, (p.plan.found db.store).result = .ok rows ∧
          (p.plan.Sorts p.query rows → ∃ out, (e.executeQuery db s).1 = .ok out)) ∧
      ∀ out, (e.executeQuery db s).1 = .ok out →
        ∃ rows, (p.plan.found db.store).result = .ok rows ∧ rows.Perm rows' ∧
          (s.isPlain = true → (∀ n, s.limit = some n → rows'.length ≤ n) →
            rows'.length ≤ e.limits.maxRows → out.Perm out') := by
  obtain ⟨p', hp'⟩ := Engine.prepare_of_executeQuery h
  obtain ⟨schema, hschema, hruns⟩ := Engine.exists_schema hp'
  have hprepare' := (hruns _).1.symm.trans hp'
  obtain ⟨p, done, plan, plan', rest, hprepare, hquery, hplan, hjoined', hunhints, hlength,
    htable, hselects⟩ := Engine.prepareWith_of_unhinted_join hjoins hprepare'
  have hp := (hruns s).1.trans hprepare
  have hjoined : p.plan.joins = done ++ plan :: rest := by rw [hplan]
  obtain ⟨-, hlimits', -, -⟩ := Engine.prepareWith_eq_ok.mp hprepare'
  obtain ⟨-, -, hcheck, -⟩ := Engine.prepareWith_eq_ok.mp hprepare
  have hne : p.plan.joins ≠ [] := by
    rw [hjoined]
    exact List.append_ne_nil_of_right_ne_nil _ (List.cons_ne_nil _ _)
  have hne' : p'.plan.joins ≠ [] := by
    rw [hjoined']
    exact List.append_ne_nil_of_right_ne_nil _ (List.cons_ne_nil _ _)
  have hrun := Engine.executeQuery_joined hp hne
  rw [Engine.executeQuery_joined hp' hne'] at h
  obtain ⟨rows', hfound', hshown'⟩ := bind_eq_ok_iff.mp h
  obtain ⟨left, hleft, hanswered, hperm⟩ := Plan.found_joinHint hplan hjoined' hunhints hselects
    (fun _ _ => hstore.keyable) hfound'
  have hshow := p.plan.granted_showRows (fun _ => (Select.check_eq_ok hcheck).computes hcheck)
  refine ⟨p, p', done, rest, plan, left, rows', hp, hjoined, hlength, htable, hleft, ?_, ?_, hp',
    hfound', ?_, ?_⟩
  · rw [hrun, ← hanswered]
    exact Outcome.granted_bind_iff fun rows _ => (hshow rows).1.map
  · intro hcurrent
    rw [hschema hcurrent] at hprepare
    refine Or.inr ((Engine.answered_of_prepareWith hprepare).joins plan ?_)
    rw [hjoined]
    exact List.mem_append_right _ List.mem_cons_self
  · intro hsortable hans
    obtain ⟨rows, hrows⟩ := (hanswered.mpr hans).exists_ok (hsortable.calm_found p.plan)
    refine ⟨rows, hrows, fun hsorts => ?_⟩
    obtain ⟨shown, hshown⟩ := (hshow rows).2 hsorts
    rw [hrun]
    exact ⟨_, bind_eq_ok_iff.mpr ⟨rows, hrows, map_eq_ok_iff.mpr ⟨shown, hshown, rfl⟩⟩⟩
  · intro out hout
    rw [hrun] at hout
    obtain ⟨rows, hrows, hshown⟩ := bind_eq_ok_iff.mp hout
    have hsame := hperm rows hrows
    refine ⟨rows, hrows, hsame, ?_⟩
    intro hplain hlimit hmax
    have hquery' := (Limits.enforce_eq_ok hlimits').2 hplain
    have hplain' : p'.query.isPlain = true := by
      rw [(Limits.enforce_eq_ok hlimits').1]
      exact hplain
    have hwithin : ∀ n, p'.query.limit = some n → rows'.length ≤ n := by
      rw [hquery']
      exact length_le_limit hlimit hmax
    rw [← hsame.length_eq] at hmax
    have hout := Plan.perm_of_showRows (s := p.query) (hquery ▸ hplain')
      (fun n hn => hsame.length_eq ▸ hwithin n (by rw [← hn, hquery]; rfl)) hmax hshown
    have hout' := Plan.perm_of_showRows hplain' hwithin (hsame.length_eq ▸ hmax) hshown'
    rw [hquery] at hout
    exact hout.trans ((hsame.map _).trans hout'.symm)

/-- What each user has ordered, looked up by the user through an index of the orders. -/
def Select.sampleLookup : Select :=
  { columns := [.field (some "users") "name" none, .field (some "orders") "total" none]
    source := "users"
    indexHint := none
    joins := [⟨"orders", some "by_user", [⟨"users", "name", "orders", "user"⟩]⟩]
    filter := none
    groupBy := []
    having := none
    orderBy := []
    limit := none }

/-- The sample database with that index. -/
def Database.sampleIndexed : Database :=
  { Database.empty with
    store := (Store.sample.defineIndex "orders" "by_user" ["user"]).toOption.getD .empty }

/-- An engine that took its snapshot of the schema there. -/
def Engine.sampleIndexed : Engine :=
  ⟨.standard, ⟨some Database.sampleIndexed.store.schema⟩⟩

theorem executeQuery_joinHint_sample :
    ∃ (p p' : Prepared) (rows rows' : List Row),
      (Engine.sampleIndexed.prepare Database.sampleIndexed Select.sampleLookup).1 = .ok p ∧
      (p.plan.found Database.sampleIndexed.store).result = .ok rows ∧
      (Engine.sampleIndexed.prepare Database.sampleIndexed
        (Select.sampleLookup.withJoins [⟨"orders", none,
          [⟨"users", "name", "orders", "user"⟩]⟩])).1 = .ok p' ∧
      (p'.plan.found Database.sampleIndexed.store).result = .ok rows' ∧ rows.Perm rows' := by
  have hindex : Store.sample.defineIndex "orders" "by_user" ["user"]
      = .ok Database.sampleIndexed.store := eq_ok_of_toOption (by decide +kernel)
  have hreachable : Database.sampleIndexed.store.Reachable Document.IsJson :=
    (Store.reachable_sample.mono fun _ h => h.1).defineIndex hindex
  have hisOk : (Engine.sampleIndexed.executeQuery Database.sampleIndexed
      (Select.sampleLookup.withJoins [⟨"orders", none,
        [⟨"users", "name", "orders", "user"⟩]⟩])).1.isOk = true := by decide +kernel
  obtain ⟨out', hout'⟩ := exists_eq_ok_of_isOk hisOk
  have hjoins : Select.sampleLookup.joins = [] ++ ⟨"orders", some "by_user",
      [⟨"users", "name", "orders", "user"⟩]⟩ :: [] := rfl
  obtain ⟨p, p', done, rest, plan, left, rows', hp, -, -, -, -, -, -, hp', hrows', -,
    hsame⟩ := executeQuery_joinHint hreachable hjoins hout'
  obtain ⟨out, hout⟩ : ∃ out, (Engine.sampleIndexed.executeQuery Database.sampleIndexed
      Select.sampleLookup).1 = .ok out := exists_eq_ok_of_isOk (by decide +kernel)
  obtain ⟨rows, hrows, hperm, -⟩ := hsame out hout
  exact ⟨p, p', rows, rows', hp, hrows, hp', hrows', hperm⟩

/-- On the sample database itself, which lacks the index, the look-ups are refused. So is the
    read that they give way to, and the hint makes a query fail that runs without it. -/
theorem joinHint_fails_on_stale_snapshot :
    (∃ p, (Engine.sampleIndexed.prepare Database.sample Select.sampleLookup).1 = .ok p) ∧
    (∃ out', (Engine.sampleIndexed.executeQuery Database.sample
      (Select.sampleLookup.withJoins [⟨"orders", none,
        [⟨"users", "name", "orders", "user"⟩]⟩])).1 = .ok out') ∧
    (Engine.sampleIndexed.executeQuery Database.sample Select.sampleLookup).1
      = .error (.refused (.ofStore (.indexNotFound "orders" "by_user"))) := by
  refine ⟨exists_eq_ok_of_isOk (by decide +kernel), exists_eq_ok_of_isOk (by decide +kernel), ?_⟩
  decide +kernel

end DocQuery
