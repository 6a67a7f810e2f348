import DocQuery.Proofs.Engine.Found
import DocQuery.Proofs.Engine.Merged
import DocQuery.Proofs.Result.Group

/-!
# Columns that a group determines

A grouped query shows a plain column by the value in the first row of each group, so the column
should have one value in all of them. It has if a group key is the same field of the same table
(`grouped_columns_determined`). The check of a query asks for less: it takes a bare name and a
qualified one for the same column, whatever the table. On one table that makes no difference, but
a bare name is the first table's, and so a column of a joined table passes without being
determined (`grouped_column_leaks`).
-/

namespace DocQuery

-- ── Joined rows ─────────────────────────────────────────────────────────────

/-- The row merges one stored row of each table, under qualified names. -/
structure Row.JoinedFrom (store : Store) (tables : List String) (row : Row) : Prop where
  within : row.Within tables
  parts : ∀ table ∈ tables, ∃ t, store.tables.get? table = some t ∧ ∃ r ∈ t.rows,
    ∀ f, row.value (qualify table f) = r.value f

section Joined

variable {store : Store} {table : String} {t : StoredTable} {tables : List String} {row : Row}

theorem Row.MergedFrom.joinedFrom (h : row.MergedFrom store tables)
    (hplain : ∀ u ∈ tables, Plain u) (hnodup : tables.Nodup) : row.JoinedFrom store tables := by
  obtain ⟨doc, hdoc, rfl⟩ := h
  refine ⟨within_joined tables doc, ?_⟩
  intro u hu
  obtain ⟨t, ht, hmem⟩ := hdoc u hu
  refine ⟨t, ht, doc u, hmem, fun f => ?_⟩
  rw [value, value, get?_joined hplain hnodup hu]

/-- Within one field of one table keys tell the values of joined rows apart. -/
theorem Row.JoinedFrom.key_value_eq_iff (hstore : store.Reachable Document.IsJson) {a b : Row}
    (ha : a.JoinedFrom store tables) (hb : b.JoinedFrom store tables) (htable : table ∈ tables)
    (f : String) :
    (a.value (qualify table f)).key = (b.value (qualify table f)).key
      ↔ (a.value (qualify table f)).equal (b.value (qualify table f)) = true := by
  obtain ⟨t, ht, ra, hra, hva⟩ := ha.parts table htable
  obtain ⟨t', ht', rb, hrb, hvb⟩ := hb.parts table htable
  obtain rfl := Option.some.inj (ht.symm.trans ht')
  rw [hva, hvb]
  exact hstore.key_value_eq_iff ht hra hrb f

end Joined

-- ── The rows that are found ─────────────────────────────────────────────────

namespace Select

variable {s : Select} {schema : Schema} {store : Store} {p : Plan} {rows : List Row}

/-- A query on one table finds rows of that table. -/
theorem mem_of_found_single (hplan : s.plan schema = .ok p) (hjoins : s.joins = [])
    (hrows : (p.found store).result = .ok rows) {row : Row} (hrow : row ∈ rows) :
    ∃ t, store.tables.get? s.source = some t ∧ row ∈ t.rows := by
  obtain ⟨source, hsource, hheld⟩ := Reading.result_bind_eq_ok hrows
  exact mem_of_held_single hplan hjoins hsource hheld hrow

/-- A query with joins finds joined rows of its tables. -/
theorem joinedFrom_of_found (hplan : s.plan schema = .ok p) (hplain : ∀ t ∈ s.tables, Plain t)
    (hnodup : s.tables.Nodup) (hstore : store.Reachable Document.IsJson) (hjoins : s.joins ≠ [])
    (hrows : (p.found store).result = .ok rows) : ∀ row ∈ rows, row.JoinedFrom store s.tables := by
  obtain ⟨source, hsource, hheld⟩ := Reading.result_bind_eq_ok hrows
  intro row hrow
  exact (mergedFrom_of_held hplan hnodup hstore hjoins hsource hheld row hrow).joinedFrom hplain
    hnodup

-- ── Columns ─────────────────────────────────────────────────────────────────

/-- A group key is the column: the same field of the same table. A bare name is the first
    table's. -/
def Determines (s : Select) (table : Option String) (name : String) : Prop :=
  ∃ k ∈ s.groupBy, k.field = name ∧ k.table.getD s.source = table.getD s.source

theorem mem_qualifiers_of_column {t name : String} {label : Option String}
    (h : .field (some t) name label ∈ s.columns) : t ∈ s.qualifiers := by
  have hmem : t ∈ s.columns.filterMap Column.qualifier? := List.mem_filterMap.mpr ⟨_, h, rfl⟩
  simp only [qualifiers, List.mem_append]
  tauto

/-- What the check accepts as a column of the groups is determined, or it is bare where the group
    key is qualified, or the other way round, in a query with joins. -/
theorem determines_or_of_check (hcheck : s.check = .ok ()) (hgrouped : s.isGrouped = true)
    {table : Option String} {name : String} {label : Option String}
    (hcolumn : .field table name label ∈ s.columns) :
    s.Determines table name ∨ s.joins ≠ [] ∧
      ∃ k ∈ s.groupBy, k.field = name ∧ k.table.isSome = !table.isSome := by
  have hchecked := check_eq_ok hcheck
  have hshape := hchecked.shape
  rw [checkShape, if_pos hgrouped] at hshape
  have hby := forM_eq_ok_iff.mp hshape _ hcolumn
  rw [checkGroupedColumn] at hby
  split at hby
  · rename_i hgroup
    obtain ⟨k, hk, hsame⟩ := List.any_eq_true.mp hgroup
    rw [Bool.and_eq_true, beq_iff_eq] at hsame
    obtain ⟨hfield, htable⟩ := hsame
    by_cases hjoins : s.joins = []
    · -- on a single table every qualifier is that table
      have hsole : ∀ o : Option String, (∀ t, o = some t → t ∈ s.qualifiers) →
          o.getD s.source = s.source := by
        intro o ho
        cases o with
        | none => rfl
        | some t =>
            have hmem := hchecked.qualifiers t (ho t rfl)
            rw [tables, hjoins] at hmem
            exact List.mem_singleton.mp hmem
      refine Or.inl ⟨k, hk, hfield, (hsole _ ?_).trans (hsole _ ?_).symm⟩
      · intro t ht
        have hmem : t ∈ s.groupBy.filterMap (·.table) := List.mem_filterMap.mpr ⟨k, hk, ht⟩
        simp only [qualifiers, List.mem_append]
        tauto
      · exact fun t ht => mem_qualifiers_of_column (ht ▸ hcolumn)
    · cases hkt : k.table with
      | none =>
          cases table with
          | none => exact Or.inl ⟨k, hk, hfield, by rw [hkt]⟩
          | some t => exact Or.inr ⟨hjoins, k, hk, hfield, by rw [hkt]; rfl⟩
      | some u =>
          cases table with
          | none => exact Or.inr ⟨hjoins, k, hk, hfield, by rw [hkt]; rfl⟩
          | some t =>
              rw [hkt] at htable
              exact Or.inl ⟨k, hk, hfield, by rw [hkt, beq_iff_eq.mp htable]⟩
  · cases hby

/-- Where a group key and a column read one name in all rows, and keys tell apart the values under
    that name, the column has one value in a group. -/
theorem equal_of_mem_groups {members : List Row} (hmembers : members ∈ s.groups rows)
    {k : GroupKey} (hk : k ∈ s.groupBy) {table : Option String} {name : String} (key : String)
    (hread : ∀ row ∈ rows, row.resolve k.table k.field s.source = row.value key ∧
      row.resolve table name s.source = row.value key)
    (htells : ∀ a ∈ rows, ∀ b ∈ rows, (a.value key).key = (b.value key).key →
      (a.value key).equal (b.value key) = true) :
    ∀ a ∈ members, ∀ b ∈ members,
      (a.resolve table name s.source).equal (b.resolve table name s.source) = true := by
  intro a ha b hb
  have hrows := mem_of_mem_groups hmembers
  obtain ⟨hka, hca⟩ := hread a (hrows a ha)
  obtain ⟨hkb, hcb⟩ := hread b (hrows b hb)
  have hkeys := GroupKey.key_resolve_eq (textOf_eq_of_mem_groups hmembers a ha b hb) k hk
  rw [hka, hkb] at hkeys
  rw [hca, hcb]
  exact htells a (hrows a ha) b (hrows b hb) hkeys

end Select

/-- **Grouped columns are determined.** In every group of an accepted query a column that a group
    key determines has one value in all rows, so it does not matter which of them comes first. Every
    selected column is such a column, but for one that is bare where the group key is qualified, or
    the other way round, in a query with joins. -/
theorem grouped_columns_determined {store : Store} {schema : Schema} {limits : Limits}
    {text : String} {s : Select} {p : Prepared} {rows : List Row}
    (hstore : store.Reachable Document.IsJson) (htext : Select.ofText text = .ok s)
    (hgrouped : s.isGrouped = true) (hprepared : Engine.prepareWith limits schema s = .ok p)
    (hrows : (p.plan.found store).result = .ok rows)
    (hplain : s.joins = [] → ∀ row ∈ rows, row.HasPlainNames) :
    (∀ maxRows, (p.plan.run p.query store maxRows).result
      = (s.groupRows rows).map (·.take maxRows)) ∧
    ∀ table name label, .field table name label ∈ s.columns →
      (s.Determines table name → ∀ members ∈ s.groups rows, ∀ a ∈ members, ∀ b ∈ members,
        (a.resolve table name s.source).equal (b.resolve table name s.source) = true) ∧
      (s.Determines table name ∨ s.joins ≠ [] ∧
        ∃ k ∈ s.groupBy, k.field = name ∧ k.table.isSome = !table.isSome) := by
  obtain ⟨-, hlimits, hcheck, hplan⟩ := Engine.prepareWith_eq_ok.mp hprepared
  have hnotPlain := Select.isPlain_of_isGrouped hgrouped
  have hquery := Limits.eq_of_enforce hnotPlain hlimits
  rw [hquery] at hcheck hplan
  have hchecked := Select.check_eq_ok hcheck
  have hnames := Select.plainNames_ofText htext
  refine ⟨?_, ?_⟩
  · intro maxRows
    have hcount : p.plan.pushedLimit s = none := by
      rw [Plan.pushedLimit, hnotPlain]
      rfl
    rw [hquery, Plan.run_found hcount
      (Select.nativeDirection_of_isPlain_eq_false hplan hnotPlain), hrows]
    show (p.plan.showRows s rows).map _ = _
    rw [Plan.showRows, if_pos hgrouped]
  · intro table name label hcolumn
    refine ⟨?_, Select.determines_or_of_check hcheck hgrouped hcolumn⟩
    rintro ⟨k, hk, rfl, htable⟩ members hmembers
    by_cases hjoins : s.joins = []
    · refine Select.equal_of_mem_groups hmembers hk k.field ?_ ?_
      · intro row hrow
        exact ⟨(hplain hjoins row hrow).resolve_eq _ _ _, (hplain hjoins row hrow).resolve_eq _ _ _⟩
      · intro a ha b hb
        obtain ⟨t, ht, ha⟩ := Select.mem_of_found_single hplan hjoins hrows ha
        obtain ⟨t', ht', hb⟩ := Select.mem_of_found_single hplan hjoins hrows hb
        obtain rfl := Option.some.inj (ht.symm.trans ht')
        exact (hstore.key_value_eq_iff ht ha hb k.field).mp
    · have hjoined := Select.joinedFrom_of_found hplan hnames.tables hchecked.nodup hstore hjoins
        hrows
      have hfield : Plain k.field := (((Select.inWords_ofText htext).columns _ hcolumn).1.2).plain
      have hmem : table.getD s.source ∈ s.tables := by
        cases table with
        | none => exact List.mem_cons_self
        | some t => exact hchecked.qualifiers t (Select.mem_qualifiers_of_column hcolumn)
      refine Select.equal_of_mem_groups hmembers hk (qualify (table.getD s.source) k.field) ?_ ?_
      · intro row hrow
        have hwithin := (hjoined row hrow).within
        rw [hwithin.resolve_eq hfield, hwithin.resolve_eq hfield, htable]
        exact ⟨rfl, rfl⟩
      · intro a ha b hb
        exact ((hjoined a ha).key_value_eq_iff hstore (hjoined b hb) hmem k.field).mp

/-- A user and two orders, each with a city of its own. -/
def Store.sampleCities : Store :=
  (empty.addTable "users" [.object [("name", .text "Ann"), ("city", .text "Rome")]]).addTable
    "orders" [.object [("user", .text "Ann"), ("city", .text "Oslo")],
      .object [("user", .text "Ann"), ("city", .text "Bern")]]

theorem Store.reachable_sampleCities : sampleCities.Reachable Document.IsJson := by
  have hdoc : ∀ f g : String × String,
      (Document.object [(f.1, .text f.2), (g.1, .text g.2)]).IsJson := by
    intro f g
    refine .object ?_
    simp only [List.forall_mem_cons, List.not_mem_nil, false_implies, implies_true, and_true]
    exact ⟨.text _, .text _⟩
  refine (Reachable.empty.addTable _ ?_).addTable _ ?_
  · exact List.forall_mem_singleton.mpr (hdoc ("name", "Ann") ("city", "Rome"))
  · exact List.forall_mem_cons.mpr ⟨hdoc ("user", "Ann") ("city", "Oslo"),
      List.forall_mem_singleton.mpr (hdoc ("user", "Ann") ("city", "Bern"))⟩

/-- The number of orders by city, with the city of a table. -/
def Select.sampleCity (table : String) : Select :=
  { columns := [.field (some table) "city" none, .call ⟨"COUNT", [.star]⟩ (some "n")]
    source := "users"
    indexHint := none
    joins := [⟨"orders", none, [⟨"users", "name", "orders", "user"⟩]⟩]
    filter := none
    groupBy := [⟨none, "city"⟩]
    having := none
    orderBy := []
    limit := none }

/-- The users' city is determined. -/
theorem grouped_columns_determined_sample :
    ∃ p rows members,
      Engine.prepareWith .standard Store.sampleCities.schema (.sampleCity "users") = .ok p ∧
      (p.plan.found Store.sampleCities).result = .ok rows ∧
      members ∈ (Select.sampleCity "users").groups rows ∧ members.length = 2 ∧
      ∀ a ∈ members, ∀ b ∈ members,
        (a.resolve (some "users") "city" "users").equal (b.resolve (some "users") "city" "users")
          = true := by
  have htext : Select.ofText ("SELECT users.city, COUNT(*) AS n FROM users "
      ++ "JOIN orders ON users.name = orders.user GROUP BY city") = .ok (.sampleCity "users") :=
    eq_ok_of_toOption (by decide +kernel)
  have hgroups : (Outcome.ofChecked (Engine.prepareWith .standard Store.sampleCities.schema
      (.sampleCity "users")) >>= fun p => (p.plan.found Store.sampleCities).result.map fun rows =>
        ((Select.sampleCity "users").groups rows).map List.length) = .ok [2] :=
    eq_ok_of_toOption (by decide +kernel)
  obtain ⟨p, hprepared, hgroups⟩ := bind_eq_ok_iff.mp hgroups
  have hprepared := Outcome.ofChecked_eq_ok_iff.mp hprepared
  obtain ⟨rows, hrows, hgroups⟩ := map_eq_ok_iff.mp hgroups
  obtain ⟨members, hmembers, hlength⟩ := List.mem_map.mp (hgroups.symm ▸ List.mem_singleton_self 2)
  refine ⟨p, rows, members, hprepared, hrows, hmembers, hlength, ?_⟩
  exact ((grouped_columns_determined Store.reachable_sampleCities htext rfl hprepared hrows
    (fun hjoins => nomatch hjoins)).2 (some "users") "city" none List.mem_cons_self).1
      ⟨⟨none, "city"⟩, List.mem_cons_self, rfl, rfl⟩ members hmembers

/-- The orders' city is not, though the check lets it pass: the orders in the one group, that of
    the user's city, have different ones. -/
theorem grouped_column_leaks :
    Store.sampleCities.Reachable Document.IsJson ∧
    Select.ofText ("SELECT orders.city, COUNT(*) AS n FROM users "
      ++ "JOIN orders ON users.name = orders.user GROUP BY city") = .ok (.sampleCity "orders") ∧
    (Outcome.ofChecked (Engine.prepareWith .standard Store.sampleCities.schema
      (.sampleCity "orders")) >>= fun p => (p.plan.found Store.sampleCities).result.map fun rows =>
        ((Select.sampleCity "orders").groups rows).map
          (·.map (·.resolve (some "orders") "city" "users")))
      = .ok [[.text "Oslo", .text "Bern"]] :=
  ⟨Store.reachable_sampleCities, eq_ok_of_toOption (by decide +kernel),
    eq_ok_of_toOption (by decide +kernel)⟩

end DocQuery
