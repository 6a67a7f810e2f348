import DocQuery.Proofs.Engine.Single

/-!
# An index hint changes neither the rows nor their order

A hint on the first table makes the store read through an index instead of reading everything.
What is read is the same (`hinted_reads_same_rows`), and so is what a plain query returns if
nothing is cut. A query that sorts by the first field of the index then gets the order of the
index. On an index with that field alone this is the order of the sort, ties included; on a
longer one the later fields break the ties, and only the sorted values are the same
(`hinted_order_eq`).

All this is so where the index can sort its rows. Over a column that mixes types the read through
the index may panic (`hinted_read_panics`), and the sort of the store may give another order than
the sort of the engine (`hinted_order_differs`).
-/

namespace DocQuery

variable {s : Select} {t : StoredTable} {store : Store}

-- ── Rows held by two plans ──────────────────────────────────────────────────

/-- The plans of all joins are served by the store that they were made for. -/
theorem Select.isServed_of_planJoins
    (htables : ∀ table ∈ s.tables, ∃ t, store.tables.get? table = some t)
    {joined : List String} {joins : List Join} (hjoins : ∀ j ∈ joins, j.table ∈ s.tables)
    {plans : List JoinPlan} (h : s.planJoins store.schema joined joins = .ok plans) :
    ∀ p ∈ plans, p.IsServed store := by
  intro p hp
  obtain ⟨join, hjoin, before, hplan⟩ := exists_ofJoin_of_mem h hp
  obtain ⟨htable, haccess, hpush, -, -⟩ := JoinPlan.ofJoin_eq_ok hplan
  obtain ⟨t, ht⟩ := htables _ (hjoins join hjoin)
  refine ⟨t, s.joinedConjuncts join.table, ?_, ?_, hpush⟩
  · rw [htable]
    exact ht
  · rw [haccess]
    exact JoinPlan.serves_accessFor ht _

/-- What a prepared query reads is in the store, and its read of the first table serves the
    conditions on that table. -/
structure Prepared.IsServed (p : Prepared) (store : Store) (t : StoredTable) : Prop where
  table : store.tables.get? p.plan.table = some t
  access : p.plan.access.Serves t p.query.sourceConjuncts
  joins : ∀ j ∈ p.plan.joins, j.IsServed store

/-- A plan is served by the store whose schema it was made for. -/
theorem Engine.isServed_of_prepareWith {limits : Limits} {p : Prepared}
    (h : prepareWith limits store.schema s = .ok p) : ∃ t, p.IsServed store t := by
  obtain ⟨htables, hlimits, -, hplan⟩ := prepareWith_eq_ok.mp h
  obtain ⟨hquery, -⟩ := Limits.enforce_eq_ok hlimits
  obtain ⟨htable, haccess, -, hjoins, -⟩ := Select.plan_eq_ok hplan
  have hexists : ∀ table ∈ p.query.tables, ∃ t, store.tables.get? table = some t := by
    rw [hquery]
    exact Select.exists_table htables
  obtain ⟨t, ht⟩ := hexists p.query.source List.mem_cons_self
  refine ⟨t, ?_, Select.serves_planAccess ht haccess, ?_⟩
  · rw [htable]
    exact ht
  · exact Select.isServed_of_planJoins hexists
      (fun j hj => List.mem_cons_of_mem _ (List.mem_map.mpr ⟨j, hj, rfl⟩)) hjoins

/-- A plan that is served is not refused, whether or not a sort panics. -/
theorem Prepared.IsServed.granted_held {p : Prepared} (h : p.IsServed store t) :
    (p.plan.held p.query store).result.Granted :=
  Plan.granted_held (h.access.opens h.table) fun j hj => (h.joins j hj).opens

namespace Plan

variable {p : Plan} {source source' : List Row}

/-- Neither is what it returns. -/
theorem granted_returned (h : (p.held s store).result.Granted) (maxRows : Nat) :
    (p.returned s store maxRows).result.Granted := by
  rw [returned_eq]
  exact h.bind fun _ _ => (Outcome.granted_ofSort _).map

/-- What is held after the joins does not depend on the order of the rows read before. -/
theorem agree_joinedRows (hplans : ∀ j ∈ p.joins, j.SelectsPushdown)
    (hkeys : ∀ table t, store.tables.get? table = some t → ∀ row ∈ t.rows, row.Keyable)
    (hsource : ∀ row ∈ source, row.Keyable) (hperm : source.Perm source') :
    Agree List.Perm (p.joinedRows store source).result (p.joinedRows store source').result := by
  rw [joinedRows, joinedRows]
  split
  · exact .ok hperm
  · have hqualified : ∀ row ∈ source.map (Row.qualified p.table), row.Keyable := by
      intro row hrow
      obtain ⟨r, hr, rfl⟩ := List.mem_map.mp hrow
      exact (hsource r hr).qualified _
    rw [Reading.result_bind, Reading.result_bind]
    refine (agree_foldlM_joinRows hplans hkeys hqualified (hperm.map _)).bind ?_
    exact fun out out' h => .ok (h.filter _)

end Plan

section TwoPlans

variable {p p' : Prepared} {read : List Row}

/-- Two prepared queries have the same conditions and joins, and may differ in how they read and
    order the first table. The second one reads it all. -/
structure Prepared.SameButRead (p p' : Prepared) (store : Store) (read : List Row) : Prop where
  conditions : p'.query.sourceConjuncts = p.query.sourceConjuncts
  table : p'.plan.table = p.plan.table
  joins : p'.plan.joins = p.plan.joins
  postJoinFilter : p'.plan.postJoinFilter = p.plan.postJoinFilter
  fetch : (store.fetch p'.plan.table p'.plan.access none none).result = .ok read

variable (h : p.IsServed store t) (h' : p'.IsServed store t) (hsame : p.SameButRead p' store read)
  (hkeys : ∀ table t, store.tables.get? table = some t → ∀ row ∈ t.rows, row.Keyable)

include h h' hsame hkeys

/-- What the one holds the other one finds, but for the order, unless the store cuts. -/
theorem Prepared.SameButRead.exists_found {held : List Row}
    (hheld : (p.plan.held p.query store).result = .ok held) :
    ∃ rows, (p'.plan.found store).result = .ok rows ∧
      ((∀ n, p.plan.pushedLimit p.query = some n → rows.length ≤ n) → held.Perm rows) := by
  obtain ⟨q, hfetch, hrows⟩ := h.access.fetch h.table p.plan.nativeDirection
  obtain ⟨fetched, hfetched, hheld⟩ := Reading.result_bind_eq_ok hheld
  rw [hfetch, Outcome.ofSort_eq_ok_iff, Scan.take_eq_some_iff] at hfetched
  obtain ⟨all, hall, hcut⟩ := hfetched
  have hread : read.Perm (t.rows.filter fun row =>
      p.query.sourceConjuncts.all (·.toFilter.holds row)) := by
    rw [← hsame.conditions]
    exact h'.access.selects.fetch_perm h'.table hsame.fetch
  have hperm : all.Perm read := (AccessPath.arrange_perm (hrows.symm.trans hall)).trans hread.symm
  have hfound : (p'.plan.found store).result = (p.plan.joinedRows store read).result := by
    rw [Plan.found, Reading.result_bind_ok hsame.fetch, Plan.joinedRows, Plan.joinedRows,
      hsame.table, hsame.joins, hsame.postJoinFilter]
  rw [hfound]
  cases hcount : p.plan.pushedLimit p.query with
  | none =>
      rw [hcount] at hcut
      rw [hcut] at hheld
      have hkeyable : ∀ row ∈ all, row.Keyable := by
        intro row hrow
        rw [hperm.mem_iff, hread.mem_iff] at hrow
        exact hkeys _ t h.table row (List.mem_of_mem_filter hrow)
      have hagree := Plan.agree_joinedRows (fun j hj => (h.joins j hj).selectsPushdown) hkeys
        hkeyable hperm
      rw [hheld] at hagree
      generalize (p.plan.joinedRows store read).result = x at hagree
      cases hagree with
      | ok hperm => exact ⟨_, rfl, fun _ => hperm⟩
  | some n =>
      -- the store cuts only where there is no join, and then it may cut nothing
      have hnone : ∀ rows, p.plan.joinedRows store rows = pure rows := fun rows =>
        if_pos (Plan.of_pushedLimit hcount).1
      have hcut : fetched = all.take n := by
        rw [hcut, hcount]
      rw [hnone] at hheld ⊢
      refine ⟨read, rfl, fun hlength => ?_⟩
      rw [← Except.ok.inj hheld, hcut, List.take_of_length_le (hperm.length_eq.trans_le
        (hlength n rfl))]
      exact hperm

/-- What the one returns the other one finds, but for the order, unless rows are cut. -/
theorem Prepared.SameButRead.returned_perm {maxRows : Nat} {out : List Row}
    (hout : (p.plan.returned p.query store maxRows).result = .ok out) :
    ∃ rows, (p'.plan.found store).result = .ok rows ∧
      ((∀ n, p.query.limit = some n → rows.length ≤ n) → rows.length ≤ maxRows →
        out.Perm rows) := by
  rw [Plan.returned_eq] at hout
  obtain ⟨held, hheld, hout⟩ := bind_eq_ok_iff.mp hout
  obtain ⟨shown, hshown, rfl⟩ := map_eq_ok_iff.mp hout
  obtain ⟨rows, hfound, hperm⟩ := hsame.exists_found h h' hkeys hheld
  refine ⟨rows, hfound, fun hlimit hmax => ?_⟩
  have hperm := hperm fun n hn => hlimit n (Plan.of_pushedLimit hn).2.2
  have hshown := Plan.shown_perm (Outcome.ofSort_eq_ok_iff.mp hshown)
    fun n hn => hperm.length_eq.trans_le (hlimit n hn)
  have hall := hshown.trans hperm
  rw [List.take_of_length_le (hall.length_eq.trans_le hmax)]
  exact hall

/-- Where no read panics, what is found is returned if it can be sorted. -/
theorem Prepared.SameButRead.exists_returned (hsortable : store.Sortable) :
    ∃ rows, (p'.plan.found store).result = .ok rows ∧
      (OrderKey.Consistent p.query.orderBy p.query.source rows → ∀ maxRows,
        ∃ out, (p.plan.returned p.query store maxRows).result = .ok out) := by
  obtain ⟨held, hheld⟩ := h.granted_held.exists_ok (hsortable.calm_held p.plan p.query)
  obtain ⟨rows, hfound, hperm⟩ := hsame.exists_found h h' hkeys hheld
  refine ⟨rows, hfound, fun hconsistent maxRows => ?_⟩
  have hshown : (p.plan.shown p.query held).isSome = true := by
    refine Plan.isSome_shown fun horder => hconsistent.perm (hperm ?_).symm
    intro n hn
    exact absurd horder (Plan.of_pushedLimit hn).2.1
  obtain ⟨shown, hshown⟩ := Option.isSome_iff_exists.mp hshown
  rw [Plan.returned_eq, hheld]
  show ∃ out, (Outcome.ofSort (p.plan.shown p.query held)).map _ = .ok out
  rw [hshown]
  exact ⟨_, rfl⟩

end TwoPlans

-- ── The same rows ───────────────────────────────────────────────────────────

/-- A read through an index panics or gives the rows of a full scan, and it does not panic where
    the index can sort them. -/
theorem AccessPath.fetch_throughIndex {table index : String} {conditions : List Condition}
    {access : AccessPath}
    (h : throughIndex store.schema table index conditions = .ok access)
    (direction direction' : Option Direction) :
    ∃ rows', (store.fetch table (.fullScan (Condition.toFilter? conditions)) direction'
        none).result = .ok rows' ∧
      ((store.fetch table access direction none).result = .error .panicked ∨
        ∃ rows, (store.fetch table access direction none).result = .ok rows ∧ rows.Perm rows') ∧
      ∀ fields, store.schema.indexFields? table index = some fields → SortableBy fields rows' →
        (store.fetch table access direction none).result ≠ .error .panicked := by
  obtain ⟨planned, range, residual, hplanned, -, rfl⟩ := throughIndex_eq_ok h
  obtain ⟨t, ht, -⟩ := Store.indexFields?_schema_eq_some.mp hplanned
  obtain ⟨q, hfetch, hrows⟩ := (serves_throughIndex ht h).fetch ht direction
  obtain ⟨rows', hrows'⟩ := Store.exists_fetch_fullScan ht (Condition.toFilter? conditions)
    direction'
  have hperm := (selects_fullScan conditions).fetch_perm ht hrows'
  rw [hfetch none, Scan.take_none, hrows]
  refine ⟨rows', hrows', ?_, fun fields hfields hsortable => ?_⟩
  · cases harrange : AccessPath.arrange direction
        (t.rows.filter fun row => conditions.all (·.toFilter.holds row))
        (.index index planned range (Condition.toFilter? residual)) with
    | none => exact .inl rfl
    | some rows => exact .inr ⟨rows, rfl, (arrange_perm harrange).trans hperm.symm⟩
  · refine Outcome.calm_ofSort (isSome_arrange ?_ direction)
    rintro _ _ _ _ ⟨⟩
    rw [Option.some.inj (hplanned.symm.trans hfields)]
    exact hsortable.perm hperm

/-- A hinted query is planned through the index that is hinted at. -/
theorem Select.planAccess_hinted {index : String} {fields : List String} {access : AccessPath}
    (hhint : s.indexHint = some index) (ht : store.tables.get? s.source = some t)
    (hindex : t.indexes.get? index = some fields)
    (h : s.planAccess store.schema = .ok access) :
    ∃ range residual, access = .index index fields range residual := by
  rw [planAccess, hhint] at h
  obtain ⟨planned, range, residual, hplanned, -, rfl⟩ := AccessPath.throughIndex_eq_ok h
  rw [Store.indexFields?_schema, ht] at hplanned
  rw [Option.some.inj (hindex.symm.trans hplanned)]
  exact ⟨range, _, rfl⟩

/-- A query that an engine accepted is accepted without its hint, with the same joins. -/
theorem Engine.prepare_unhinted {e : Engine} {db : Database} {p : Prepared}
    (h : (e.prepare db s).1 = .ok p) :
    ∃ p', (e.prepare db s.unhinted).1 = .ok p' ∧ p'.query = p.query.unhinted ∧
      p'.plan.table = p.plan.table ∧ p'.plan.joins = p.plan.joins ∧
      p'.plan.postJoinFilter = p.plan.postJoinFilter := by
  obtain ⟨schema, -, hruns⟩ := exists_schema h
  rw [(hruns s).1] at h
  obtain ⟨p', hp', hquery, htable, -, -, hjoins, hpost⟩ := prepareWith_unhinted h
  exact ⟨p', (hruns s.unhinted).1.trans hp', hquery, htable, hjoins, hpost⟩

/-- Rows that are within a query's own limit and the host's cap are within the limit that the
    query is run with. -/
theorem length_le_limit {limit : Option Nat} {maxRows length : Nat}
    (h : ∀ n, limit = some n → length ≤ n) (hmax : length ≤ maxRows) :
    ∀ n, some (limit.getD maxRows) = some n → length ≤ n := by
  rintro n ⟨⟩
  cases limit with
  | none => exact hmax
  | some m => exact h m rfl

/-- Without its hint a plain query is granted, too, and returns the same rows, but for the order,
    if all of them are within the limits. Where no read panics both return rows if these can be
    sorted. -/
theorem Engine.executeQuery_unhinted {e : Engine} {db : Database}
    (hstore : db.store.Reachable Document.IsJson) (hcurrent : e.IsCurrent db)
    (hplain : s.isPlain = true) {p : Prepared} (hprepared : (e.prepare db s).1 = .ok p) :
    ∃ p', (e.prepare db s.unhinted).1 = .ok p' ∧
      (e.executeQuery db s).1.Granted ∧ (e.executeQuery db s.unhinted).1.Granted ∧
      (∀ out out', (e.executeQuery db s).1 = .ok out →
        (e.executeQuery db s.unhinted).1 = .ok out' →
        ∃ rows, (p'.plan.found db.store).result = .ok rows ∧
          ((∀ n, s.limit = some n → rows.length ≤ n) → rows.length ≤ e.limits.maxRows →
            out.Perm out')) ∧
      (db.store.Sortable → ∃ rows, (p'.plan.found db.store).result = .ok rows ∧
        (OrderKey.Consistent s.orderBy s.source rows →
          (∃ out, (e.executeQuery db s).1 = .ok out) ∧
            ∃ out', (e.executeQuery db s.unhinted).1 = .ok out')) := by
  obtain ⟨p', hprepared', hquery', htable', hjoins', hpost'⟩ := prepare_unhinted hprepared
  obtain ⟨schema, hschema, hp, hquery, hrun⟩ := prepare_plain hprepared hplain
  obtain ⟨schema', hschema', hp', -, hrun'⟩ := prepare_plain (s := s.unhinted) hprepared' hplain
  rw [hschema hcurrent] at hp
  rw [hschema' hcurrent] at hp'
  obtain ⟨t, h⟩ := isServed_of_prepareWith hp
  obtain ⟨t', h'⟩ := isServed_of_prepareWith hp'
  have ht := h'.table
  rw [htable', h.table] at ht
  obtain rfl := Option.some.inj ht
  have hkeys : ∀ table t, db.store.tables.get? table = some t → ∀ row ∈ t.rows, row.Keyable :=
    fun _ _ => hstore.keyable
  obtain ⟨read, hread⟩ : ∃ read,
      (db.store.fetch p'.plan.table p'.plan.access none none).result = .ok read := by
    obtain ⟨htable, haccess, -⟩ := Select.plan_eq_ok (prepareWith_eq_ok.mp hp').2.2.2
    rw [hquery', Select.planAccess] at haccess
    rw [← Except.ok.inj haccess]
    exact Store.exists_fetch_fullScan h'.table _ _
  have hsame : p.SameButRead p' db.store read :=
    { conditions := by rw [hquery']; rfl
      table := htable'
      joins := hjoins'
      postJoinFilter := hpost'
      fetch := hread }
  have hsame' : p'.SameButRead p' db.store read := ⟨rfl, rfl, rfl, rfl, hread⟩
  refine ⟨p', hprepared', ?_, ?_, ?_, fun hsortable => ?_⟩
  · rw [hrun]
    exact (Plan.granted_returned h.granted_held _).map
  · rw [hrun']
    exact (Plan.granted_returned h'.granted_held _).map
  · intro out out' hout hout'
    rw [hrun] at hout
    rw [hrun'] at hout'
    obtain ⟨kept, hkept, rfl⟩ := map_eq_ok_iff.mp hout
    obtain ⟨kept', hkept', rfl⟩ := map_eq_ok_iff.mp hout'
    obtain ⟨rows, hfound, hperm⟩ := hsame.returned_perm h h' hkeys hkept
    obtain ⟨rows', hfound', hperm'⟩ := hsame'.returned_perm h' h' hkeys hkept'
    obtain rfl := Except.ok.inj (hfound.symm.trans hfound')
    refine ⟨rows, hfound, fun hlength hmax => ?_⟩
    have hlimit := length_le_limit hlength hmax
    exact ((hperm (hquery ▸ hlimit) hmax).trans
      (hperm' (hquery' ▸ hquery ▸ hlimit) hmax).symm).map _
  · obtain ⟨rows, hfound, hreturned⟩ := hsame.exists_returned h h' hkeys hsortable
    obtain ⟨rows', hfound', hreturned'⟩ := hsame'.exists_returned h' h' hkeys hsortable
    obtain rfl := Except.ok.inj (hfound.symm.trans hfound')
    refine ⟨rows, hfound, fun hconsistent => ⟨?_, ?_⟩⟩
    · obtain ⟨out, hout⟩ := hreturned (hquery ▸ hconsistent) e.limits.maxRows
      rw [hrun, hout]
      exact ⟨_, rfl⟩
    · obtain ⟨out, hout⟩ := hreturned' (hquery' ▸ hquery ▸ hconsistent) e.limits.maxRows
      rw [hrun', hout]
      exact ⟨_, rfl⟩

/-- **A hint on an index of the first table never changes which rows are read**, unless a sort
    panics. Whatever the conditions, a read through the index that does not panic gives the rows of
    a full scan, and it does not panic over few rows nor where no field of the index mixes types. So
    a plain query, joined or not, is refused neither with the hint nor without, and returns the same
    rows if its limit and the host's cap leave room for all of them. -/
theorem hinted_reads_same_rows {db : Database} (hstore : db.store.Reachable Document.IsJson) :
    (∀ (table index : String) (conditions : List Condition) (access : AccessPath),
      AccessPath.throughIndex db.store.schema table index conditions = .ok access →
      ∀ direction direction', ∃ rows',
        (db.store.fetch table (.fullScan (Condition.toFilter? conditions)) direction' none).result
          = .ok rows' ∧
        ((db.store.fetch table access direction none).result = .error .panicked ∨
          ∃ rows, (db.store.fetch table access direction none).result = .ok rows ∧
            rows.Perm rows') ∧
        ∀ fields, db.store.schema.indexFields? table index = some fields →
          SortableBy fields rows' →
          (db.store.fetch table access direction none).result ≠ .error .panicked) ∧
    (∀ (e : Engine) (s : Select) (p : Prepared), e.IsCurrent db → s.isPlain = true →
      (e.prepare db s).1 = .ok p →
      ∃ p', (e.prepare db s.unhinted).1 = .ok p' ∧
        (e.executeQuery db s).1.Granted ∧ (e.executeQuery db s.unhinted).1.Granted ∧
        (∀ out out', (e.executeQuery db s).1 = .ok out →
          (e.executeQuery db s.unhinted).1 = .ok out' →
          ∃ rows, (p'.plan.found db.store).result = .ok rows ∧
            ((∀ n, s.limit = some n → rows.length ≤ n) → rows.length ≤ e.limits.maxRows →
              out.Perm out')) ∧
        (db.store.Sortable → ∃ rows, (p'.plan.found db.store).result = .ok rows ∧
          (OrderKey.Consistent s.orderBy s.source rows →
            (∃ out, (e.executeQuery db s).1 = .ok out) ∧
              ∃ out', (e.executeQuery db s.unhinted).1 = .ok out'))) := by
  refine ⟨?_, ?_⟩
  · intro table index conditions access h direction direction'
    exact AccessPath.fetch_throughIndex h direction direction'
  · intro e s p hcurrent hplain hprepared
    exact Engine.executeQuery_unhinted hstore hcurrent hplain hprepared

/-- The users above an age, by the index on it, joined with their orders. -/
def Select.sampleHinted : Select :=
  { columns := [.star]
    source := "users"
    indexHint := some "by_age"
    joins := [⟨"orders", none, [⟨"users", "name", "orders", "user"⟩]⟩]
    filter := some (.compare ⟨.column (some "users") "age", .gt, .number (.ofNat 20)⟩)
    groupBy := []
    having := none
    orderBy := []
    limit := none }

/-- A joined statement with a hint on the index that its condition bounds. -/
theorem hinted_reads_same_rows_sample :
    ∃ out out', (Engine.sample.executeQuery Database.sample Select.sampleHinted).1 = .ok out ∧
      (Engine.sample.executeQuery Database.sample Select.sampleHinted.unhinted).1 = .ok out' ∧
      out.Perm out' := by
  have hisOk : (Engine.sample.prepare Database.sample Select.sampleHinted).1.isOk = true := by
    decide +kernel
  have hcount : (Engine.sample.prepare Database.sample
      Select.sampleHinted.unhinted).1.toOption.bind (fun p =>
        (p.plan.found Store.sample).result.toOption.map List.length) = some 2 := by decide +kernel
  have hreachable : Database.sample.store.Reachable Document.IsJson :=
    Store.reachable_sample.mono fun _ h => h.1
  obtain ⟨p, hp⟩ := exists_eq_ok_of_isOk hisOk
  obtain ⟨p', hp', -, -, hperm, hreturned⟩ :=
    (hinted_reads_same_rows hreachable).2 Engine.sample Select.sampleHinted p
        (Or.inl rfl) rfl hp
  obtain ⟨rows, hfound, hreturned⟩ := hreturned Store.sortable_sample
  obtain ⟨⟨out, hout⟩, out', hout'⟩ := hreturned (OrderKey.consistent_nil _ _)
  obtain ⟨rows', hfound', hperm⟩ := hperm out out' hout hout'
  obtain rfl := Except.ok.inj (hfound.symm.trans hfound')
  have hlength : rows.length = 2 := by
    rw [hp'] at hcount
    change (p'.plan.found Database.sample.store).result.toOption.map List.length = some 2 at hcount
    rw [hfound] at hcount
    exact Option.some.inj hcount
  refine ⟨out, out', hout, hout', hperm ?_ ?_⟩
  · intro n hn
    exact nomatch hn
  · rw [hlength]
    decide

/-- Through an index over twos, tens and a text that comes between them a read panics, though the
    index path is planned and a full scan reads all rows. -/
theorem hinted_read_panics :
    (Database.ofColumn panickingColumn).store.Reachable Document.IsJson ∧
    (∃ access,
      AccessPath.throughIndex (Database.ofColumn panickingColumn).store.schema "t" "by_v" []
        = .ok access ∧
      ((Database.ofColumn panickingColumn).store.fetch "t" access none none).result
        = .error .panicked) ∧
    (Engine.sample.execute (.ofColumn panickingColumn) "SELECT v FROM t@by_v").1
      = .error .panicked ∧
    (Engine.sample.execute (.ofColumn panickingColumn) "SELECT v FROM t").1.toOption.map List.length
      = some 21 := by
  refine ⟨(Store.reachable_ofColumn (by decide +kernel)).mono fun _ h => h.1,
    ⟨.index "by_v" ["v"] [] none, eq_ok_of_toOption (by decide +kernel), by decide +kernel⟩, ?_, ?_⟩
  all_goals decide +kernel

-- ── The same order ──────────────────────────────────────────────────────────

namespace Select

variable {key : OrderKey} {rows : List Row} {n : Nat}

/-- A key on the first field of an index is served by the order of the index. -/
theorem arranged_index {index : String} {fields : List String} {range : IndexRange}
    {residual : Option Filter} (hjoins : s.joins = []) (hplain : s.isPlain = true)
    (horder : s.orderBy = [key]) (hkey : key.table.all (· == s.source) = true)
    (hfirst : fields.head? = some key.field) :
    (s.preparedBy (.index index fields range residual) n).plan.arranged s rows
      = Sorting.stableSort Scan.referenceBytes (Scan.compareRows fields key.direction) rows := by
  have hstrategy : s.orderStrategy (.index index fields range residual)
      = .native key.direction := by
    rw [orderStrategy_singleton horder, nativeField?, hjoins, hplain, hkey, hfirst,
      beq_self_eq_true]
    rfl
  rw [Plan.arranged]
  dsimp only [preparedBy]
  rw [hstrategy]
  rfl

/-- The rows of a full scan come out sorted on the field of the one key. -/
theorem exists_arranged_fullScan (filter : Option Filter) (n : Nat) (horder : s.orderBy = [key])
    (hplain : ∀ row ∈ rows, row.HasPlainNames) (hkind : HasKind key.field rows)
    (hsorted : SortedOn creationTimeField .ascending rows) :
    ∃ sorted, (s.preparedBy (.fullScan filter) n).plan.arranged s rows = some sorted ∧
      SortedOn key.field key.direction sorted := by
  have hstrategy := orderStrategy_singleton horder (.fullScan filter)
  rw [Plan.arranged]
  dsimp only [preparedBy]
  split at hstrategy
  · rename_i hnative
    rw [Bool.and_eq_true] at hnative
    have hfield : key.field = creationTimeField :=
      (Option.some.inj (beq_iff_eq.mp hnative.2)).symm
    rw [hstrategy, hfield]
    cases key.direction with
    | ascending => exact ⟨rows, rfl, hsorted⟩
    | descending => exact ⟨rows.reverse, rfl, hsorted.reverse⟩
  · rw [hstrategy, horder]
    exact ⟨_, sortRows_eq_mergeSort hplain hkind, Scan.sortedOn_mergeSort
      (List.forall_mem_singleton.mpr hkind) key.direction⟩

/-- A full scan sorted by one key has the order of an index on the field of this key alone. -/
theorem arranged_singleton {store : Store}
    (hstore : store.Reachable fun d => d.IsJson ∧ d.HasPlainFields)
    (ht : store.tables.get? s.source = some t) (horder : s.orderBy = [key])
    (hclock : key.field = creationTimeField → key.direction = .descending →
      store.clock < 2 ^ 53)
    (hsortable : SortableBy [key.field] (s.kept t)) (filter : Option Filter) (n : Nat) :
    (s.preparedBy (.fullScan filter) n).plan.arranged s (s.kept t)
      = Sorting.stableSort Scan.referenceBytes (Scan.compareRows [key.field] key.direction)
          (s.kept t) := by
  have hkey : ∀ k, s.orderBy = [k] → k.field = creationTimeField → k.direction = .descending →
      store.clock < 2 ^ 53 := by
    intro k hk
    obtain rfl := List.singleton_inj.mp (horder.symm.trans hk)
    exact hclock
  rw [arranged_kept hstore (fun _ h => h.2) ht hkey, horder]
  exact sortRows_eq_stableSort (hstore.plain_kept (fun _ h => h.2) ht) hsortable

/-- However an index breaks the ties of its first field, the values of that field come out as
    from a full scan. -/
theorem equal_arranged {fields : List String} {sorted scanned : List Row}
    (hplain : ∀ row ∈ rows, row.HasPlainNames) (hkinds : ∀ f ∈ key.field :: fields, HasKind f rows)
    (hindex : Sorting.stableSort Scan.referenceBytes
      (Scan.compareRows (key.field :: fields) key.direction) rows = some sorted)
    (hscan : scanned.Perm rows) (hscanned : SortedOn key.field key.direction scanned)
    (table : String) :
    (sorted.map (·.resolve key.table key.field table)).Forall₂ (fun v w => v.equal w = true)
      (scanned.map (·.resolve key.table key.field table)) := by
  have hvalues : ∀ l ⊆ rows, l.map (·.resolve key.table key.field table)
      = l.map (·.value key.field) := by
    intro l hl
    refine List.map_congr_left ?_
    intro row hrow
    exact (hplain row (hl hrow)).resolve_eq _ _ _
  have hperm := Sorting.stableSort_perm hindex
  rw [Sorting.stableSort_eq_some (Scan.transCmp_compareRows hkinds key.direction)] at hindex
  have hsorted : SortedOn key.field key.direction sorted := by
    rw [← Option.some.inj hindex]
    exact Scan.sortedOn_mergeSort hkinds key.direction
  rw [hvalues _ hperm.subset, hvalues _ hscan.subset]
  exact equal_of_sortedOn (hperm.trans hscan.symm)
    ((hkinds _ List.mem_cons_self).subset hperm.subset) hsorted hscanned

end Select

/-- **An index gives the order of a sort by its first field**, where it can sort its rows. A plain
    query on one table that sorts by the first field of a hinted index is refused neither with the
    hint nor without. If the index has no other field, and the rows that it keeps are few or have
    values of one type there, it returns the same rows in the same order, ties and the cut included.
    The exception is a descending order of creation times from `2 ^ 53` on, of which two may be
    equal: an index keeps such rows in order of insertion, and a full scan turns them around. If
    each field of the index has values of one type, the values of the key are equal row by row,
    however many fields there are. -/
theorem hinted_order_eq {db : Database}
    (hstore : db.store.Reachable fun d => d.IsJson ∧ d.HasPlainFields) {e : Engine}
    (hcurrent : e.IsCurrent db) {key : OrderKey} {index : String} {fields : List String}
    (hjoins : s.joins = []) (hplain : s.isPlain = true) (hhint : s.indexHint = some index)
    (horder : s.orderBy = [key]) (hkey : key.table = none ∨ key.table = some s.source)
    (ht : db.store.tables.get? s.source = some t)
    (hindex : t.indexes.get? index = some (key.field :: fields)) {p : Prepared}
    (hprepared : (e.prepare db s).1 = .ok p) :
    ∃ p', (e.prepare db s.unhinted).1 = .ok p' ∧
      (e.executeQuery db s).1.Granted ∧ (e.executeQuery db s.unhinted).1.Granted ∧
      (fields = [] → (s.kept t).length ≤ 20 ∨ HasOneType key.field (s.kept t) →
        (key.field = creationTimeField → key.direction = .descending →
          db.store.clock < 2 ^ 53) →
        ∃ out, (e.executeQuery db s).1 = .ok out ∧ (e.executeQuery db s.unhinted).1 = .ok out) ∧
      ((∀ f ∈ key.field :: fields, HasOneType f (s.kept t)) →
        ∃ rows rows', (p.plan.returned p.query db.store e.limits.maxRows).result = .ok rows ∧
          (p'.plan.returned p'.query db.store e.limits.maxRows).result = .ok rows' ∧
          (e.executeQuery db s).1 = .ok (rows.map (projectRow s.columns s.source)) ∧
          (e.executeQuery db s.unhinted).1 = .ok (rows'.map (projectRow s.columns s.source)) ∧
          (rows.map (·.resolve key.table key.field s.source)).Forall₂
            (fun v w => v.equal w = true)
            (rows'.map (·.resolve key.table key.field s.source))) := by
  obtain ⟨p', hprepared', hgranted, hgranted', -⟩ := Engine.executeQuery_unhinted
    (hstore.mono fun _ h => h.1) hcurrent hplain hprepared
  obtain ⟨hchecked, schema, access, hschema, -, haccess, rfl, hrun⟩ :=
    Engine.prepare_single hprepared hjoins hplain
  obtain ⟨hchecked', _, access', -, -, haccess', rfl, hrun'⟩ :=
    Engine.prepare_single (s := s.unhinted) hprepared' hjoins hplain
  obtain rfl := Except.ok.inj haccess'
  rw [hschema hcurrent] at haccess
  have hserves := Select.serves_planAccess ht haccess
  obtain ⟨range, residual, rfl⟩ := Select.planAccess_hinted hhint ht hindex haccess
  have hkey' : key.table.all (· == s.source) = true := by
    rcases hkey with hnone | hsome
    · rw [hnone]
      rfl
    · rw [hsome]
      exact beq_self_eq_true _
  have hnames := (hstore.mono fun _ h => h.2).plain ht
  have hkept := hstore.plain_kept (s := s) (fun _ h => h.2) ht
  have hkeys : ∀ row ∈ s.kept t, row.Keyable := fun row hrow =>
    (hstore.mono fun _ h => h.1).keyable ht row (s.kept_subset t hrow)
  have hreturned := Select.returned_preparedBy ht hserves (s.limit.getD e.limits.maxRows)
    e.limits.maxRows
  rw [hchecked.filter_sourceConjuncts hjoins hnames,
    Select.arranged_index hjoins hplain horder hkey' rfl] at hreturned
  have hreturned' := Select.returned_preparedBy (s := s.unhinted) ht .fullScan
    (s.unhinted.limit.getD e.limits.maxRows) e.limits.maxRows
  rw [hchecked'.filter_sourceConjuncts hjoins hnames] at hreturned'
  have hsame : s.unhinted.kept t = s.kept t := rfl
  refine ⟨_, hprepared', hgranted, hgranted', ?_, ?_⟩
  · rintro rfl hfew hclock
    have hsortable : SortableBy [key.field] (s.kept t) :=
      hfew.imp_right fun htype => List.forall_mem_singleton.mpr (htype.hasKind hkeys)
    rw [Select.arranged_singleton (s := s.unhinted) hstore ht horder hclock hsortable, hsame]
      at hreturned'
    obtain ⟨sorted, hsorted⟩ := Option.isSome_iff_exists.mp
      (hsortable.isSome_stableSort key.direction)
    rw [hsorted] at hreturned hreturned'
    rw [hrun, hrun', hreturned, hreturned']
    exact ⟨_, rfl, rfl⟩
  · intro htypes
    have hkinds : ∀ f ∈ key.field :: fields, HasKind f (s.kept t) :=
      fun f hf => (htypes f hf).hasKind hkeys
    obtain ⟨sorted, hsorted⟩ : ∃ sorted, Sorting.stableSort Scan.referenceBytes
        (Scan.compareRows (key.field :: fields) key.direction) (s.kept t) = some sorted :=
      ⟨_, Sorting.stableSort_eq_some (Scan.transCmp_compareRows hkinds key.direction)⟩
    obtain ⟨scanned, hscan, hscanned⟩ := Select.exists_arranged_fullScan (s := s.unhinted)
      (Condition.toFilter? s.unhinted.sourceConjuncts)
      (s.unhinted.limit.getD e.limits.maxRows) horder hkept (hkinds _ List.mem_cons_self)
      (hstore.sortedOn_kept ht)
    rw [hsorted] at hreturned
    have hperm := Plan.arranged_perm hscan
    rw [hsame, hscan] at hreturned'
    rw [hreturned] at hrun
    rw [hreturned'] at hrun'
    refine ⟨_, _, hreturned, hreturned', hrun, hrun', ?_⟩
    rw [List.map_take, List.map_take]
    exact List.forall₂_take _ (Select.equal_arranged hkept hkinds hsorted hperm hscanned s.source)

/-- The oldest users first, by the index on the age. -/
def Select.sampleOldest : Select :=
  { columns := [.field none "name" none]
    source := "users"
    indexHint := some "by_age"
    joins := []
    filter := some (.compare ⟨.column none "age", .ltEq, .number (.ofNat 31)⟩)
    groupBy := []
    having := none
    orderBy := [⟨some "users", "age", .descending⟩]
    limit := some 2 }

/-- A hint on the index that has the order that is asked for. -/
theorem hinted_order_eq_sample :
    ∃ out, (Engine.sample.executeQuery Database.sample Select.sampleOldest).1 = .ok out ∧
      (Engine.sample.executeQuery Database.sample Select.sampleOldest.unhinted).1 = .ok out := by
  have hisOk : (Engine.sample.prepare Database.sample Select.sampleOldest).1.isOk = true := by
    decide +kernel
  have hindex : ((Database.sample.store.tables.get? "users").bind fun t =>
      t.indexes.get? "by_age") = some ["age"] := by decide +kernel
  obtain ⟨t, ht, hfields⟩ := Option.bind_eq_some_iff.mp hindex
  obtain ⟨p, hp⟩ := exists_eq_ok_of_isOk hisOk
  obtain ⟨p', -, -, -, heq, -⟩ := hinted_order_eq Store.reachable_sample
    (Or.inl rfl) rfl rfl rfl rfl (Or.inr rfl) ht hfields hp
  refine heq rfl (.inl ((List.length_filter_le _ _).trans (Store.length_rows_sample ht))) ?_
  intro hfield
  exact absurd hfield (by decide)

/-- Twos, tens and a text, in an order that tells two sorts apart. -/
def shuffledColumn : List (Option Nat) :=
  [some 10, some 10, some 2, some 10, some 2, some 2, some 2, none, none, none, some 2, none,
    some 10, some 2, some 10, some 2, none, none, some 10, none, some 10]

/-- Through an index over them the rows come in another order than from the sort, and no sort
    panics. -/
theorem hinted_order_differs :
    (Database.ofColumn shuffledColumn).store.Reachable
      (fun d => d.IsJson ∧ d.HasPlainFields) ∧
    ∃ out out', (Engine.sample.execute (.ofColumn shuffledColumn)
        "SELECT v FROM t@by_v ORDER BY v").1 = .ok out ∧
      (Engine.sample.execute (.ofColumn shuffledColumn) "SELECT v FROM t ORDER BY v").1
        = .ok out' ∧
      out ≠ out' := by
  obtain ⟨out, hout⟩ : ∃ out, (Engine.sample.execute (.ofColumn shuffledColumn)
      "SELECT v FROM t@by_v ORDER BY v").1 = .ok out := exists_eq_ok_of_isOk (by decide +kernel)
  obtain ⟨out', hout'⟩ : ∃ out', (Engine.sample.execute (.ofColumn shuffledColumn)
      "SELECT v FROM t ORDER BY v").1 = .ok out' := exists_eq_ok_of_isOk (by decide +kernel)
  refine ⟨Store.reachable_ofColumn (by decide +kernel), out, out', hout, hout', ?_⟩
  have hne : (Engine.sample.execute (.ofColumn shuffledColumn)
      "SELECT v FROM t@by_v ORDER BY v").1.toOption
      ≠ (Engine.sample.execute (.ofColumn shuffledColumn)
        "SELECT v FROM t ORDER BY v").1.toOption := by decide +kernel
  rw [hout, hout'] at hne
  rintro rfl
  exact hne rfl

end DocQuery
