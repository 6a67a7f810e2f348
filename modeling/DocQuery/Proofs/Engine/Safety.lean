import DocQuery.Proofs.Engine.Single

/-!
# What is accepted runs

Preparing a query looks for every fault that a run could meet. The tables and indexes that
its plan names are in the store, the bounds are on fields of those indexes, and every call is
of a known function with an argument that it takes. Only a function of a single row needs
more: a row to look at. It is called on groups only, and no group is empty. So a prepared
query is answered at every step (`Prepared.Answered`), and a text that can be explained is not
refused when it is executed (`execute_of_explain`). What planning does not look at are the values
in the rows: over a column that mixes types a sort may panic (`explained_query_panics`).
-/

namespace DocQuery

variable {s : Select} {store : Store}

-- ── Calls ───────────────────────────────────────────────────────────────────

/-- A resolved call has a value over any rows, except that a function of a single row needs
    one. -/
theorem Call.compute_isOk {call : Call} (h : ∃ resolved, call.resolve = .ok resolved)
    {rows : List Row} (hrows : call.isRowScoped = true → rows ≠ []) (defaultTable : String) :
    ∃ value, call.compute defaultTable rows = .ok value := by
  obtain ⟨⟨function, source⟩, hresolve⟩ := h
  have hfunction : Function.ofName? call.name = some function := by
    rw [resolve] at hresolve
    split at hresolve
    · exact nomatch hresolve
    · rename_i f hname
      rw [hname]
      split at hresolve
      · rw [(Prod.mk.inj (Except.ok.inj hresolve)).1]
      · split at hresolve
        · rw [(Prod.mk.inj (Except.ok.inj hresolve)).1]
        · exact nomatch hresolve
      · exact nomatch hresolve
      · exact nomatch hresolve
  rw [compute, hresolve]
  cases function with
  | count => cases source <;> exact ⟨_, rfl⟩
  | abs =>
      have hscoped : call.isRowScoped = true := by
        rw [isRowScoped, hfunction]
        rfl
      obtain ⟨row, rest, hrest⟩ := List.exists_cons_of_ne_nil (hrows hscoped)
      rw [hrest]
      exact ⟨_, rfl⟩
  | sum => exact ⟨_, rfl⟩
  | avg => exact ⟨_, rfl⟩
  | min => exact ⟨_, rfl⟩
  | max => exact ⟨_, rfl⟩

namespace Select

/-- The calls of a query have values over the rows of a group. -/
def Computes (s : Select) (members : List Row) : Prop :=
  ∀ call ∈ s.selectedCalls ++ s.havingCalls, ∃ value, call.compute s.source members = .ok value

theorem Checked.computes (h : s.Checked) (hcheck : s.check = .ok ()) {members : List Row}
    (hmembers : s.isGrouped = true → members ≠ []) : s.Computes members := by
  intro call hcall
  refine Call.compute_isOk (resolve_of_check hcheck hcall) ?_ s.source
  intro hrow
  exact hmembers (h.isGrouped_of_isRowScoped hcall hrow)

/-- A group whose calls have values has a row. -/
theorem Computes.groupRow {members : List Row} (h : s.Computes members) :
    ∃ row, s.groupRow members = .ok row := by
  have hhaving : ∀ call ∈ s.havingCalls, ∃ cell, (do
      return (call.signature, ← call.compute s.source members) :
        Except QueryError (String × Value)) = .ok cell := by
    intro call hcall
    obtain ⟨value, hvalue⟩ := h call (List.mem_append_right _ hcall)
    exact ⟨_, bind_eq_ok_iff.mpr ⟨value, hvalue, rfl⟩⟩
  have hcells : ∀ column ∈ s.columns, ∃ cells, s.groupCells members column = .ok cells := by
    intro column hcolumn
    cases column with
    | star => exact ⟨_, rfl⟩
    | tableStar table => exact ⟨_, rfl⟩
    | field table name label => exact ⟨_, rfl⟩
    | call call label =>
        have hcall : call ∈ s.selectedCalls := List.mem_filterMap.mpr ⟨_, hcolumn, rfl⟩
        obtain ⟨value, hvalue⟩ := h call (List.mem_append_left _ hcall)
        exact ⟨_, bind_eq_ok_iff.mpr ⟨value, hvalue, rfl⟩⟩
  obtain ⟨having, hhaving⟩ := mapM_isOk hhaving
  obtain ⟨cells, hcells⟩ := mapM_isOk hcells
  rw [Select.groupRow]
  exact ⟨_, bind_eq_ok_iff.mpr ⟨having, hhaving, bind_eq_ok_iff.mpr ⟨cells, hcells, rfl⟩⟩⟩

/-- No group is empty. -/
theorem ne_nil_of_mem_groups {rows members : List Row} (h : members ∈ s.groups rows) :
    members ≠ [] :=
  Keyed.ne_nil_of_mem_values_collect h

/-- There are no more groups than rows. -/
theorem length_groups_le (s : Select) (rows : List Row) :
    (s.groups rows).length ≤ rows.length := by
  rw [groups, Keyed.values_collect, Keyed.classes, List.length_map]
  exact (Keyed.eraseDupsBy_sublist _ rows).length_le

/-- Computed rows can be shown if those that pass the condition on groups can be sorted. -/
theorem isSome_finish {computed : List Row}
    (h : OrderKey.Consistent s.orderBy s.source (computed.filter s.havingHolds)) :
    (s.finish computed).isSome = true := by
  rw [finish, Option.isSome_map]
  exact isSome_sortRows h

end Select

namespace Plan

variable {p : Plan} {rows : List Row}

/-- The last sort of a query can sort its rows: those of its groups, or those that are held. -/
def Sorts (p : Plan) (s : Select) (rows : List Row) : Prop :=
  if s.isGrouped then ∀ computed, (s.groups rows).mapM s.groupRow = .ok computed →
    OrderKey.Consistent s.orderBy s.source (computed.filter s.havingHolds)
  else s.isAggregateOnly = false → p.order = .inMemory → OrderKey.Consistent s.orderBy s.source rows

/-- Up to twenty rows can be sorted, grouped or not. -/
theorem sorts_of_length_le (h : rows.length ≤ 20) : p.Sorts s rows := by
  rw [Sorts]
  split
  · intro computed hcomputed
    have hlength := (mapM_eq_ok_iff.mp hcomputed).length_eq
    exact .inl ((List.length_filter_le _ _).trans
      (hlength.symm.trans_le ((s.length_groups_le rows).trans h)))
  · exact fun _ _ => .inl h

/-- Rows are shown, unless the last sort panics, if the calls have values over every group that may
    come up. -/
theorem granted_showRows (p : Plan)
    (h : ∀ members, (s.isGrouped = true → members ≠ []) → s.Computes members)
    (rows : List Row) : (p.showRows s rows).Granted ∧
      (p.Sorts s rows → ∃ shown, p.showRows s rows = .ok shown) := by
  rw [showRows, Sorts]
  split
  · have hgroups : ∀ members ∈ s.groups rows, ∃ row, s.groupRow members = .ok row := by
      intro members hmembers
      exact (h members fun _ => Select.ne_nil_of_mem_groups hmembers).groupRow
    obtain ⟨computed, hcomputed⟩ := mapM_isOk hgroups
    rw [Select.groupRows, hcomputed]
    refine ⟨Outcome.granted_ofSort (s.finish computed), fun hsorts => ?_⟩
    obtain ⟨shown, hshown⟩ :=
      Option.isSome_iff_exists.mp (Select.isSome_finish (hsorts computed rfl))
    exact ⟨shown, congrArg Outcome.ofSort hshown⟩
  · rename_i hgrouped
    split
    · obtain ⟨row, hrow⟩ := (h rows fun hg => absurd hg hgrouped).groupRow
      rw [Select.aggregateAll, hrow]
      refine ⟨Outcome.granted_ofSort (s.finish [row]), fun _ => ?_⟩
      -- one row needs no order
      have hone : ([row].filter s.havingHolds).length ≤ 20 :=
        (List.length_filter_le _ _).trans (Nat.le_add_left 1 19)
      obtain ⟨shown, hshown⟩ := Option.isSome_iff_exists.mp (Select.isSome_finish (.inl hone))
      exact ⟨shown, congrArg Outcome.ofSort hshown⟩
    · rename_i haggregate
      refine ⟨Outcome.granted_ofSort _, fun hsorts => ?_⟩
      have hshown := isSome_shown (hsorts (Bool.eq_false_iff.mpr haggregate))
      rw [shown, Option.isSome_map] at hshown
      obtain ⟨sorted, hsorted⟩ := Option.isSome_iff_exists.mp hshown
      rw [showPlain, hsorted]
      exact ⟨_, rfl⟩

end Plan

-- ── Prepared queries ────────────────────────────────────────────────────────

/-- What a prepared query asks of a store is answered: the reads of its tables, each look-up
    of a key, and the calls over every group that may come up. -/
structure Prepared.Answered (p : Prepared) (store : Store) : Prop where
  source : store.Opens p.plan.table p.plan.access
  joins : ∀ join ∈ p.plan.joins, store.Opens join.table join.access
  lookups : ∀ join ∈ p.plan.joins, ∀ index c, join.strategy = .indexedLookup index →
    join.probe? = some c → ∀ key,
      (store.fetchKey join.table index c.rightField join.pushdown key).result.Granted
  calls : ∀ members, (p.query.isGrouped = true → members ≠ []) → p.query.Computes members

/-- A query that is prepared by the schema of a store is answered by it. -/
theorem Engine.answered_of_prepareWith {limits : Limits} {p : Prepared}
    (h : prepareWith limits store.schema s = .ok p) : p.Answered store := by
  obtain ⟨htables, hlimits, hcheck, hplan⟩ := prepareWith_eq_ok.mp h
  obtain ⟨htable, haccess, -, hjoins, -⟩ := Select.plan_eq_ok hplan
  have hexists : ∀ table ∈ p.query.tables, ∃ t, store.tables.get? table = some t := by
    rw [(Limits.enforce_eq_ok hlimits).1]
    exact Select.exists_table htables
  refine ⟨?_, ?_, ?_, ?_⟩
  · obtain ⟨t, ht⟩ := hexists p.query.source List.mem_cons_self
    rw [htable]
    exact (Select.serves_planAccess ht haccess).opens ht
  · intro join hjoin
    obtain ⟨j, hj, before, hof⟩ := Select.exists_ofJoin_of_mem hjoins hjoin
    obtain ⟨hjtable, hjaccess, -⟩ := JoinPlan.ofJoin_eq_ok hof
    obtain ⟨t, ht⟩ := hexists j.table (List.mem_cons_of_mem _ (List.mem_map.mpr ⟨j, hj, rfl⟩))
    rw [hjtable, hjaccess]
    exact (JoinPlan.serves_accessFor ht _).opens ht
  · intro join hjoin index c hstrategy hprobe key
    obtain ⟨j, -, before, hof⟩ := Select.exists_ofJoin_of_mem hjoins hjoin
    obtain ⟨fields, hfields, hfield⟩ := JoinPlan.indexFields?_of_ofJoin hof hstrategy hprobe
    obtain ⟨t, ht, hindex⟩ := Store.indexFields?_schema_eq_some.mp hfields
    exact Store.granted_fetchKey_iff.mpr ⟨t, fields, ht, hindex, hfield⟩
  · intro members hmembers
    exact (Select.check_eq_ok hcheck).computes hcheck hmembers

/-- A query that is answered at every step runs, unless a sort panics. -/
theorem Prepared.Answered.granted_run {p : Prepared} (h : p.Answered store) (maxRows : Nat) :
    (p.plan.run p.query store maxRows).result.Granted := by
  rw [Plan.run_eq]
  exact (Plan.granted_held h.source h.joins).bind
    fun rows _ => (p.plan.granted_showRows h.calls rows).1.map

/-- And none panics over a sortable store if the rows held can be sorted. -/
theorem Prepared.Answered.exists_run {p : Prepared} (h : p.Answered store)
    (hsortable : store.Sortable) (maxRows : Nat) :
    ∃ held, (p.plan.held p.query store).result = .ok held ∧ (p.plan.Sorts p.query held →
      ∃ rows, (p.plan.run p.query store maxRows).result = .ok rows) := by
  obtain ⟨held, hheld⟩ := (Plan.granted_held h.source h.joins).exists_ok
    (hsortable.calm_held p.plan p.query)
  refine ⟨held, hheld, fun hsorts => ?_⟩
  obtain ⟨shown, hshown⟩ := (p.plan.granted_showRows h.calls held).2 hsorts
  rw [Plan.run_eq, hheld]
  show ∃ rows, (p.plan.showRows p.query held).map (·.take maxRows) = .ok rows
  rw [hshown]
  exact ⟨_, rfl⟩

-- ── Engines ─────────────────────────────────────────────────────────────────

/-- A schema that is got stays known; none is got only in an outage. The store is as before. -/
theorem Snapshot.get_cases (snapshot : Snapshot) (db : Database) :
    ((∃ schema, (snapshot.get db).1 = .ok schema ∧
        (snapshot.get db).2.1.schema = some schema) ∨
      (∃ error, (snapshot.get db).1 = .error error) ∧ db.outages ≠ 0) ∧
      (snapshot.get db).2.2.store = db.store := by
  obtain ⟨known⟩ := snapshot
  cases known with
  | some schema => exact ⟨Or.inl ⟨schema, rfl, rfl⟩, rfl⟩
  | none =>
      rw [get, Database.readSchema]
      by_cases hout : db.outages = 0
      · dsimp only
        rw [if_pos hout]
        exact ⟨Or.inl ⟨_, rfl, rfl⟩, rfl⟩
      · dsimp only
        rw [if_neg hout]
        exact ⟨Or.inr ⟨⟨_, rfl⟩, hout⟩, rfl⟩

namespace Engine

/-- An engine runs what it prepared on the store that it was given. -/
theorem executeQuery_eq (e : Engine) (db : Database) (s : Select) :
    (e.executeQuery db s).1 = Outcome.ofChecked (e.prepare db s).1 >>= fun p =>
      (p.plan.run p.query db.store e.limits.maxRows).result := by
  have hstore := (e.snapshot.get_cases db).2
  rw [executeQuery, prepare]
  rcases hget : e.snapshot.get db with ⟨_ | schema, snapshot, db'⟩
  · rfl
  · rw [hget] at hstore
    dsimp only at hstore ⊢
    cases prepareWith e.limits schema s with
    | error error => rfl
    | ok p => exact congrArg (fun store => (p.plan.run p.query store _).result) hstore

/-- An engine that took its snapshot prepares a query again as it did before. -/
theorem prepare_again {e e' : Engine} {db db' : Database}
    (hafter : (e.prepare db s).2 = (e', db'))
    (h : db.outages = 0 ∨ ∃ p, (e.prepare db s).1 = .ok p) :
    (e'.prepare db' s).1 = (e.prepare db s).1 ∧ db'.store = db.store ∧ e'.limits = e.limits := by
  obtain ⟨hcases, hstore⟩ := e.snapshot.get_cases db
  rw [prepare] at hafter h
  rw [prepare, prepare]
  rcases hget : e.snapshot.get db with ⟨_ | schema, snapshot, db''⟩
  · -- no schema was got, so nothing was prepared
    rw [hget] at h hcases
    rcases h with hout | ⟨p, hp⟩
    · rcases hcases with ⟨schema, hok, -⟩ | ⟨-, hne⟩
      · cases hok
      · exact absurd hout hne
    · cases hp
  · rw [hget] at hafter hcases hstore
    cases hafter
    rcases hcases with ⟨schema', hok, hknown⟩ | ⟨⟨_, herror⟩, -⟩
    · cases hok
      have hagain : snapshot.get db' = (.ok schema, snapshot, db') := by
        rw [Snapshot.get, hknown]
      rw [hagain]
      exact ⟨rfl, hstore, rfl⟩
    · cases herror

/-- The query that a text reads as, prepared. -/
def prepareText (e : Engine) (db : Database) (source : String) : Except QueryError Prepared :=
  (Select.ofText source).bind fun s => (e.prepare db s).1

/-- A text is explained by its plan. -/
theorem explain_eq (e : Engine) (db : Database) (source : String) :
    (e.explain db source).1 = (e.prepareText db source).map Prepared.plan := by
  rw [explain, prepareText]
  cases Select.ofText source <;> rfl

/-- A text is executed by running its plan. -/
theorem execute_eq (e : Engine) (db : Database) (source : String) :
    (e.execute db source).1 = Outcome.ofChecked (e.prepareText db source) >>= fun p =>
      (p.plan.run p.query db.store e.limits.maxRows).result := by
  rw [execute, prepareText]
  cases Select.ofText source with
  | error error => rfl
  | ok s => exact executeQuery_eq e db s

/-- Executing a text after it was explained gives what executing it at once gives. -/
theorem execute_after_explain {e e' : Engine} {db db' : Database} {source : String}
    (hafter : (e.explain db source).2 = (e', db'))
    (h : db.outages = 0 ∨ ∃ plan, (e.explain db source).1 = .ok plan) :
    (e'.execute db' source).1 = (e.execute db source).1 := by
  rw [explain_eq, prepareText] at h
  rw [explain] at hafter
  rw [execute_eq, execute_eq, prepareText, prepareText]
  cases hread : Select.ofText source with
  | error error => rfl
  | ok s =>
      rw [hread] at hafter h
      have hprepared : db.outages = 0 ∨ ∃ p, (e.prepare db s).1 = .ok p := by
        refine h.imp_right ?_
        rintro ⟨plan, hplan⟩
        obtain ⟨p, hp, -⟩ := map_eq_ok_iff.mp hplan
        exact ⟨p, hp⟩
      obtain ⟨hprepare, hstore, hlimits⟩ := prepare_again hafter hprepared
      show Outcome.ofChecked (e'.prepare db' s).1 >>= _ = Outcome.ofChecked (e.prepare db s).1 >>= _
      rw [hprepare, hstore, hlimits]

end Engine

/-- **What planning accepts is not refused at run time.** A text that an engine explains by the
    present schema of a store reads as a query whose every request the store answers, and it
    is executed, unless a sort panics: no read does over a sortable store, and then the last sort
    does not if it can sort the rows held. A text that cannot be explained fails with the same error
    when it is executed. This is so whether it is executed at once or after it was explained, as
    long as the schema can be asked for. -/
theorem execute_of_explain (e : Engine) (db : Database) (source : String) :
    (∀ plan, e.IsCurrent db → (e.explain db source).1 = .ok plan →
      ∃ s p, Select.ofText source = .ok s ∧ (e.prepare db s).1 = .ok p ∧ p.plan = plan ∧
        p.Answered db.store ∧ (e.execute db source).1.Granted ∧
        (db.store.Sortable → ∃ held, (p.plan.held p.query db.store).result = .ok held ∧
          (p.plan.Sorts p.query held → ∃ rows, (e.execute db source).1 = .ok rows))) ∧
    (∀ error, (e.explain db source).1 = .error error →
      (e.execute db source).1 = .error (.refused error)) ∧
    (∀ e' db', (e.explain db source).2 = (e', db') →
      (db.outages = 0 ∨ ∃ plan, (e.explain db source).1 = .ok plan) →
      (e'.execute db' source).1 = (e.execute db source).1) := by
  refine ⟨?_, ?_, fun e' db' => Engine.execute_after_explain⟩
  · intro plan hcurrent hexplain
    rw [Engine.explain_eq] at hexplain
    obtain ⟨p, hprepared, hplan⟩ := map_eq_ok_iff.mp hexplain
    obtain ⟨s, hread, hp⟩ := bind_eq_ok_iff.mp hprepared
    obtain ⟨schema, hschema, hruns⟩ := Engine.exists_schema hp
    have hprepare := (hruns s).1.symm.trans hp
    rw [hschema hcurrent] at hprepare
    have hanswered := Engine.answered_of_prepareWith hprepare
    have hexecute : (e.execute db source).1
        = (p.plan.run p.query db.store e.limits.maxRows).result := by
      rw [Engine.execute_eq, hprepared]
      rfl
    rw [hexecute]
    exact ⟨s, p, hread, hp, hplan, hanswered, hanswered.granted_run _,
      fun hsortable => hanswered.exists_run hsortable _⟩
  · intro error hexplain
    rw [Engine.explain_eq] at hexplain
    rw [Engine.execute_eq]
    cases hprepared : e.prepareText db source with
    | error error' =>
        rw [hprepared] at hexplain
        rw [← Except.error.inj hexplain]
        rfl
    | ok p =>
        rw [hprepared] at hexplain
        exact nomatch hexplain

/-- Orders and the users whose age is the total, looked up through the index by age. -/
def sampleGrouped : String :=
  "SELECT orders.user, ABS(users.age) FROM orders JOIN users@by_age ON orders.total = users.age "
    ++ "GROUP BY orders.user HAVING COUNT(*) > 0"

/-- A sum of two columns, which there is not. -/
def sampleRefused : String :=
  "SELECT SUM(name, age) FROM users"

theorem execute_of_explain_sample :
    (∃ (p : Prepared) (rows : List Row), p.Answered Database.sample.store ∧
      (Engine.sample.execute Database.sample sampleGrouped).1 = .ok rows ∧
      ∀ e db, (Engine.sample.explain Database.sample sampleGrouped).2 = (e, db) →
        (e.execute db sampleGrouped).1 = .ok rows) ∧
    (Engine.sample.execute Database.sample sampleRefused).1
      = .error (.refused (.wrongArgumentCount "SUM" 2)) := by
  have hisOk : (Engine.sample.explain Database.sample sampleGrouped).1.isOk = true := by
    decide +kernel
  have hcount : ((Engine.sample.prepareText Database.sample sampleGrouped).toOption.bind fun p =>
      (p.plan.held p.query Database.sample.store).result.toOption.map List.length) = some 0 := by
    decide +kernel
  obtain ⟨plan, hplan⟩ := exists_eq_ok_of_isOk hisOk
  obtain ⟨hrun, -, hagain⟩ := execute_of_explain Engine.sample Database.sample sampleGrouped
  obtain ⟨s, p, hread, hp, -, hanswered, -, hruns⟩ := hrun plan (Or.inl rfl) hplan
  obtain ⟨held, hheld, hruns⟩ := hruns Store.sortable_sample
  have hfew : held.length ≤ 20 := by
    have hprepared : Engine.sample.prepareText Database.sample sampleGrouped = .ok p :=
      bind_eq_ok_iff.mpr ⟨s, hread, hp⟩
    rw [hprepared] at hcount
    change (p.plan.held p.query Database.sample.store).result.toOption.map List.length
      = some 0 at hcount
    rw [hheld] at hcount
    exact (Option.some.inj hcount).trans_le (Nat.zero_le 20)
  obtain ⟨rows, hrows⟩ := hruns (Plan.sorts_of_length_le hfew)
  refine ⟨⟨p, rows, hanswered, hrows, ?_⟩, ?_⟩
  · intro e db hafter
    rw [hagain e db hafter (Or.inl rfl)]
    exact hrows
  · exact (execute_of_explain Engine.sample Database.sample sampleRefused).2.1 _
      (by decide +kernel)

/-- A query is explained, and when it is executed the sort panics. -/
theorem explained_query_panics :
    (Database.ofColumn panickingColumn).store.Reachable Document.IsJson ∧
    Engine.sample.IsCurrent (.ofColumn panickingColumn) ∧
    (∃ plan, (Engine.sample.explain (.ofColumn panickingColumn) "SELECT v FROM t ORDER BY v").1
      = .ok plan) ∧
    (Engine.sample.execute (.ofColumn panickingColumn) "SELECT v FROM t ORDER BY v").1
      = .error .panicked := by
  refine ⟨(Store.reachable_ofColumn (by decide +kernel)).mono fun _ h => h.1, Or.inl rfl,
    exists_eq_ok_of_isOk (by decide +kernel), ?_⟩
  decide +kernel

end DocQuery
