import DocQuery.Proofs.Engine.Sortable

/-!
# Plain queries on one table

What such a query means is said without a plan: the rows that meet the condition, sorted by
the keys, projected, and cut (`Select.reference`). Filter, order and limit are each done
either by the store or after the read, and the result is the same either way
(`execute_eq_reference`), a panic of the sort included. Where the store orders by creation time,
no sort takes place at all; it is right because creation times increase in every reachable store.
-/

namespace DocQuery

variable {s : Select} {t : StoredTable} {store : Store}

/-- The rows of a table that meet the condition of a query, in order of creation. -/
def Select.kept (s : Select) (t : StoredTable) : List Row :=
  t.rows.filter fun row => s.filter.all (·.holds row s.source)

/-- What a plain query on one table means: the rows that meet its condition, sorted by its
    keys, projected, and cut at a count, unless the sort panics. -/
def Select.reference (s : Select) (t : StoredTable) (count : Nat) : Option (List Row) :=
  (sortRows s.orderBy s.source (s.kept t)).map fun sorted =>
    (sorted.map (projectRow s.columns s.source)).take count

-- ── The condition ───────────────────────────────────────────────────────────

/-- Every condition has a comparison. -/
theorem Condition.comparisons_ne_nil (c : Condition) : c.comparisons ≠ [] := by
  induction c with
  | and left right ihl _ =>
      intro h
      exact ihl (List.append_eq_nil_iff.mp h).1
  | or left right ihl _ =>
      intro h
      exact ihl (List.append_eq_nil_iff.mp h).1
  | compare c => exact List.cons_ne_nil _ _

/-- If all comparisons are about one table, the condition is. -/
theorem Condition.soleTable?_eq_some {c : Condition} {d t : String}
    (h : ∀ cmp ∈ c.comparisons, cmp.subject.table?.getD d = t) : c.soleTable? d = some t := by
  have hall : ∀ u ∈ c.tablesRead d, u = t := by
    intro u hu
    obtain ⟨cmp, hcmp, rfl⟩ := List.mem_map.mp hu
    exact h cmp hcmp
  rw [soleTable?]
  split
  · rename_i hnil
    exact absurd (List.map_eq_nil_iff.mp hnil) c.comparisons_ne_nil
  · rename_i u us heq
    rw [heq] at hall
    have hu := hall u List.mem_cons_self
    refine (if_pos ?_).trans (congrArg some hu)
    refine List.all_eq_true.mpr ?_
    intro v hv
    rw [hu, hall v (List.mem_cons_of_mem _ hv), beq_self_eq_true]

/-- Of a query on one table every conjunct goes into the read of that table. -/
theorem Select.Checked.sourceConjuncts_eq (h : s.Checked) (hjoins : s.joins = []) :
    s.sourceConjuncts = s.conjuncts := by
  refine List.filter_eq_self.mpr ?_
  intro c hc
  obtain ⟨w, hw, hcw⟩ := mem_conjuncts hc
  have hsole : c.soleTable? s.source = some s.source := by
    refine Condition.soleTable?_eq_some ?_
    intro cmp hcmp
    obtain ⟨table, field, hsubject, htable⟩ :=
      h.exists_column hw (Condition.mem_comparisons_of_mem_conjuncts hcw cmp hcmp)
    rw [tables, hjoins, List.map_nil, List.mem_singleton] at htable
    rw [hsubject]
    exact htable
  rw [hsole, beq_self_eq_true]

/-- On rows of plain names the read keeps the rows that meet the condition. -/
theorem Select.Checked.filter_sourceConjuncts (h : s.Checked) (hjoins : s.joins = [])
    (hplain : ∀ row ∈ t.rows, row.HasPlainNames) :
    (t.rows.filter fun row => s.sourceConjuncts.all (·.toFilter.holds row)) = s.kept t := by
  refine List.filter_congr ?_
  intro row hrow
  rw [h.sourceConjuncts_eq hjoins, ← all_holds_conjuncts]
  refine all_congr_of_mem ?_
  intro c _
  refine Condition.holds_toFilter_eq ?_
  intro cmp _
  exact ((hplain row hrow).resolve_eq _ _ _).symm

-- ── The plan ────────────────────────────────────────────────────────────────

/-- A plain query on one table, ready to run by an access path under a limit. -/
def Select.preparedBy (s : Select) (access : AccessPath) (n : Nat) : Prepared :=
  { query := { s with limit := some n }
    plan :=
      { table := s.source
        access := access
        order := s.orderStrategy access
        joins := []
        postJoinFilter := Condition.all? s.crossConjuncts
        limit := some n } }

/-- An accepted plain query on one table runs by the access path that is planned with some
    schema, the store's own if the engine's snapshot is current. -/
theorem Engine.prepare_single {e : Engine} {db : Database} {p : Prepared}
    (h : (e.prepare db s).1 = .ok p) (hjoins : s.joins = []) (hplain : s.isPlain = true) :
    s.Checked ∧ ∃ schema access, (e.IsCurrent db → schema = db.store.schema) ∧
      s.checkTables schema = .ok () ∧ s.planAccess schema = .ok access ∧
      p = s.preparedBy access (s.limit.getD e.limits.maxRows) ∧
      (e.executeQuery db s).1 = (p.plan.returned p.query db.store e.limits.maxRows).result.map
        (·.map (projectRow s.columns s.source)) := by
  obtain ⟨schema, hschema, hprepare, hquery, hrun⟩ := prepare_plain h hplain
  obtain ⟨htables, -, hcheck, hplan⟩ := prepareWith_eq_ok.mp hprepare
  obtain ⟨query, plan⟩ := p
  dsimp only at hquery hcheck hplan
  subst hquery
  have hchecked := Select.check_eq_ok hcheck
  refine ⟨⟨hchecked.nodup, hchecked.qualifiers, hchecked.noCall, hchecked.shape⟩, schema, ?_⟩
  rw [Select.plan] at hplan
  obtain ⟨_, -, hplan⟩ := bind_eq_ok_iff.mp hplan
  obtain ⟨access, haccess, hplan⟩ := bind_eq_ok_iff.mp hplan
  obtain ⟨joins, hplans, hplan⟩ := bind_eq_ok_iff.mp hplan
  have hnone : joins = [] := by
    rw [hjoins] at hplans
    exact (Except.ok.inj hplans).symm
  refine ⟨access, hschema, htables, haccess, ?_, hrun⟩
  rw [← Except.ok.inj hplan, hnone]
  rfl

/-- The rows that such a query returns, before they are projected. -/
theorem Select.returned_preparedBy {access : AccessPath}
    (ht : store.tables.get? s.source = some t) (hserves : access.Serves t s.sourceConjuncts)
    (n maxRows : Nat) :
    ((s.preparedBy access n).plan.returned (s.preparedBy access n).query store maxRows).result
      = .ofSort (((s.preparedBy access n).plan.arranged s
          (t.rows.filter fun row => s.sourceConjuncts.all (·.toFilter.holds row))).map
            (·.take (min n maxRows))) :=
  Plan.returned_single ht hserves rfl rfl maxRows

-- ── The order ───────────────────────────────────────────────────────────────

theorem Select.orderStrategy_singleton {key : OrderKey} (horder : s.orderBy = [key])
    (access : AccessPath) :
    s.orderStrategy access =
      if s.joins.isEmpty && s.isPlain && (key.table.all (· == s.source))
          && nativeField? access == some key.field then .native key.direction
      else .inMemory := by
  rw [orderStrategy, horder]

/-- The rows of a full scan come out sorted by the keys, be it by a sort or because they are in
    order of creation. -/
theorem Select.arranged_fullScan {filter : Option Filter} {n : Nat} {rows : List Row}
    (hplain : ∀ row ∈ rows, row.HasPlainNames) (hkind : HasKind creationTimeField rows)
    (hsorted : SortedOn creationTimeField .ascending rows)
    (hlt : ∀ key, s.orderBy = [key] → key.field = creationTimeField →
      key.direction = .descending → rows.Pairwise fun a b =>
        Value.collate (a.value creationTimeField) (b.value creationTimeField) = .lt) :
    (s.preparedBy (.fullScan filter) n).plan.arranged s rows
      = sortRows s.orderBy s.source rows := by
  rw [Plan.arranged]
  dsimp only [preparedBy]
  rcases horder : s.orderBy with _ | ⟨key, _ | ⟨later, keys⟩⟩
  · have hstrategy : s.orderStrategy (.fullScan filter) = .unordered := by
      rw [orderStrategy, horder]
    rw [hstrategy]
    rfl
  · have hstrategy := orderStrategy_singleton horder (.fullScan filter)
    split at hstrategy
    · -- the store gives the order of creation
      rename_i hnative
      rw [Bool.and_eq_true] at hnative
      have hfield : key.field = creationTimeField :=
        (Option.some.inj (beq_iff_eq.mp hnative.2)).symm
      rw [hstrategy]
      cases hdirection : key.direction with
      | ascending => exact (sortRows_creationTime_ascending hplain hkind hfield hdirection
          hsorted).symm
      | descending =>
          exact (sortRows_creationTime_descending hplain hkind hfield hdirection
            (hlt key horder hfield hdirection)).symm
    · rw [hstrategy]
      rfl
  · have hstrategy : s.orderStrategy (.fullScan filter) = .inMemory := by
      rw [orderStrategy, horder]
    rw [hstrategy]
    rfl

-- ── The result ──────────────────────────────────────────────────────────────

section Kept

variable {admits : Document → Prop}

theorem Select.kept_subset (s : Select) (t : StoredTable) : s.kept t ⊆ t.rows :=
  List.filter_subset_self _

/-- Their names are plain if those of the documents are. -/
theorem Store.Reachable.plain_kept (h : store.Reachable admits)
    (hdocs : ∀ d, admits d → d.HasPlainFields) (ht : store.tables.get? s.source = some t) :
    ∀ row ∈ s.kept t, row.HasPlainNames := by
  intro row hrow
  exact (h.mono hdocs).plain ht row (s.kept_subset t hrow)

/-- The kept rows are in order of creation, as the table is. -/
theorem Store.Reachable.sortedOn_kept (h : store.Reachable admits)
    (ht : store.tables.get? s.source = some t) :
    SortedOn creationTimeField .ascending (s.kept t) := by
  obtain ⟨ticks, hticks⟩ := h.creationTimes ht
  exact hticks.sortedOn.sublist List.filter_sublist

/-- Their times are numbers. -/
theorem Store.Reachable.hasKind_kept (h : store.Reachable admits)
    (ht : store.tables.get? s.source = some t) : HasKind creationTimeField (s.kept t) := by
  obtain ⟨ticks, hticks⟩ := h.creationTimes ht
  exact hticks.hasKind.subset (s.kept_subset t)

/-- Creation times below `2 ^ 53` increase in the kept rows as in the table. -/
theorem Store.Reachable.pairwise_lt_kept (h : store.Reachable admits)
    (ht : store.tables.get? s.source = some t) (hclock : store.clock < 2 ^ 53) :
    (s.kept t).Pairwise fun a b =>
      Value.collate (a.value creationTimeField) (b.value creationTimeField) = .lt := by
  obtain ⟨ticks, hticks⟩ := h.creationTimes ht
  exact (hticks.pairwise_lt hclock).sublist List.filter_sublist

/-- What a full scan gives of the kept rows is a sort of them. -/
theorem Select.arranged_kept (h : store.Reachable admits)
    (hdocs : ∀ d, admits d → d.HasPlainFields) (ht : store.tables.get? s.source = some t)
    (hclock : ∀ key, s.orderBy = [key] → key.field = creationTimeField →
      key.direction = .descending → store.clock < 2 ^ 53) (filter : Option Filter) (n : Nat) :
    (s.preparedBy (.fullScan filter) n).plan.arranged s (s.kept t)
      = sortRows s.orderBy s.source (s.kept t) := by
  refine arranged_fullScan (h.plain_kept hdocs ht) (h.hasKind_kept ht) (h.sortedOn_kept ht) ?_
  intro key horder hfield hdirection
  exact h.pairwise_lt_kept ht (hclock key horder hfield hdirection)

end Kept

/-- **A plain query on one table returns what it means.** Every accepted one without an index hint
    gives the first of the rows that meet its condition, sorted and projected. The order is the
    reference's, also where the store is asked for it, and the sort panics where the reference's
    does, which takes many rows and a key of mixed types. If the store has lost the table, which
    takes an engine with an outdated snapshot, the query is refused. -/
theorem execute_eq_reference {e : Engine} {db : Database}
    (hstore : db.store.Reachable Document.HasPlainFields) (hclock : db.store.clock < 2 ^ 53)
    {text : String} (htext : Select.ofText text = .ok s) (hjoins : s.joins = [])
    (hhint : s.indexHint = none) (hgroup : s.groupBy = []) (haggregate : s.isAggregateOnly = false)
    {p : Prepared} (hprepared : (e.prepare db s).1 = .ok p) :
    (e.execute db text).1 = (match db.store.tables.get? s.source with
      | some t => .ofSort (s.reference t (min (s.limit.getD e.limits.maxRows) e.limits.maxRows))
      | none => .error (.refused (.ofStore (.tableNotFound s.source)))) ∧
    (e.IsCurrent db → ∃ t, db.store.tables.get? s.source = some t) ∧
    ∀ t count, OrderKey.Consistent s.orderBy s.source (s.kept t) →
      (s.reference t count).isSome = true := by
  have hplain : s.isPlain = true := by
    rw [Select.isPlain, Select.isGrouped, hgroup, haggregate]
    rfl
  obtain ⟨hchecked, schema, access, hschema, htables, haccess, hp, hrun⟩ :=
    Engine.prepare_single hprepared hjoins hplain
  have hscan : access = .fullScan (Condition.toFilter? s.sourceConjuncts) := by
    rw [Select.planAccess, hhint] at haccess
    exact (Except.ok.inj haccess).symm
  subst hscan
  refine ⟨?_, ?_, ?_⟩
  · rw [Engine.execute, htext]
    dsimp only
    rw [hrun, hp]
    cases ht : db.store.tables.get? s.source with
    | none =>
        rw [Plan.returned_eq, Plan.held_missing ht]
        rfl
    | some t =>
        rw [Select.returned_preparedBy ht .fullScan, hchecked.filter_sourceConjuncts hjoins
          (hstore.plain ht), Select.arranged_kept hstore (fun _ h => h) ht fun _ _ _ _ => hclock]
        dsimp only
        rw [Select.reference]
        cases sortRows s.orderBy s.source (s.kept t) with
        | none => rfl
        | some sorted => exact congrArg Except.ok List.map_take
  · intro hcurrent
    rw [hschema hcurrent] at htables
    exact Select.exists_table htables s.source List.mem_cons_self
  · intro t count hconsistent
    exact Option.isSome_map.trans (isSome_sortRows hconsistent)

/-- An engine without a snapshot, on the sample store. -/
def Engine.sample : Engine :=
  ⟨.standard, .none⟩

def Database.sample : Database :=
  { Database.empty with store := .sample }

def Database.sampleDotted : Database :=
  { Database.empty with store := .sampleDotted }

/-- The newest of the users of some age. -/
def Select.sampleNewest : Select :=
  { columns := [.field none "name" none]
    source := "users"
    indexHint := none
    joins := []
    filter := some (.compare ⟨.column none "age", .gt, .number (.ofNat 20)⟩)
    groupBy := []
    having := none
    orderBy := [⟨none, creationTimeField, .descending⟩]
    limit := some 1 }

/-- The newest user above an age. -/
theorem execute_eq_reference_sample :
    ∃ t rows, Database.sample.store.tables.get? "users" = some t ∧
      Select.sampleNewest.reference t 1 = some rows ∧
      (Engine.sample.execute Database.sample
          "SELECT name FROM users WHERE age > 20 ORDER BY _creationTime DESC LIMIT 1").1
        = .ok rows := by
  have htext : Select.ofText
      "SELECT name FROM users WHERE age > 20 ORDER BY _creationTime DESC LIMIT 1"
      = .ok Select.sampleNewest := eq_ok_of_toOption (by decide +kernel)
  have hisOk : (Engine.sample.prepare Database.sample Select.sampleNewest).1.isOk = true := by
    decide +kernel
  obtain ⟨p, hp⟩ := exists_eq_ok_of_isOk hisOk
  obtain ⟨hresult, hexists, hsome⟩ := execute_eq_reference
    (Store.reachable_sample.mono fun _ h => h.2) (by decide +kernel) htext rfl rfl rfl rfl hp
  obtain ⟨t, ht⟩ := hexists (Or.inl rfl)
  obtain ⟨rows, hrows⟩ := Option.isSome_iff_exists.mp
    (hsome t 1 (.inl ((List.length_filter_le _ _).trans (Store.length_rows_sample ht))))
  refine ⟨t, rows, ht, hrows, ?_⟩
  rw [hresult, ht]
  exact congrArg Outcome.ofSort hrows

end DocQuery
