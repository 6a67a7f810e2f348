import DocQuery.Proofs.Engine.Determined
import DocQuery.Proofs.Engine.Having

/-!
# Group keys of one name

The row computed for a group has the group values under the names of their fields, and not of their
tables. Of several group keys of one name it has the last, and that is what a condition on groups or
a sort key reads under the name, whatever table it asks for (`InWords.resolve_key`). So both read
the column that they name if the last group key of its name is that column
(`group_keys_read_last`). If the last one is of another table, they read the other table's column
(`group_key_shadowed`).
-/

namespace DocQuery

namespace Select

variable {s : Select} {store : Store} {rows members members' : List Row} {row row' : Row}
  {table : Option String} {field : String}

-- ── The last key of a name ──────────────────────────────────────────────────

/-- A group key is the column, and so is the last group key of its name. -/
structure NamesKey (s : Select) (table : Option String) (field : String) : Prop where
  key : s.Determines table field
  last : ∀ k, s.lastKey? field = some k → k.table.getD s.source = table.getD s.source

theorem Determines.exists_lastKey? (h : s.Determines table field) :
    ∃ k, s.lastKey? field = some k := by
  obtain ⟨k, hk, hfield, -⟩ := h
  refine Option.isSome_iff_exists.mp (List.find?_isSome.mpr ?_)
  exact ⟨k, List.mem_reverse.mpr hk, beq_iff_eq.mpr hfield⟩

/-- The table of a group key is one of the query's. -/
theorem Determines.mem_tables (h : s.Determines table field) (hcheck : s.check = .ok ()) :
    table.getD s.source ∈ s.tables := by
  obtain ⟨k, hk, -, htable⟩ := h
  rw [← htable]
  cases hkt : k.table with
  | none => exact List.mem_cons_self
  | some t =>
      refine (check_eq_ok hcheck).qualifiers t ?_
      have hmem : t ∈ s.groupBy.filterMap (·.table) := List.mem_filterMap.mpr ⟨k, hk, hkt⟩
      simp only [qualifiers, List.mem_append]
      tauto

-- ── What computed rows read ─────────────────────────────────────────────────

/-- Under the name of group keys the row reads the last of them, and so, if that is the column which
    is asked for, what the first member has in that column and all others, too. -/
structure ReadsKeys (s : Select) (members : List Row) (row : Row) : Prop where
  last : ∀ k table, s.lastKey? k.field = some k →
    row.resolve table k.field s.source = s.firstValue members k.table k.field
  first : ∀ table field, s.NamesKey table field →
    row.resolve table field s.source = s.firstValue members table field
  common : ∀ table field, s.NamesKey table field → ∀ member ∈ members,
    (row.resolve table field s.source).equal (member.resolve table field s.source) = true

/-- The members of a group of joined rows have one value in a column that is a group key. -/
theorem Determines.equal_of_joined (h : s.Determines table field) (hnamed : s.InWords)
    (hcheck : s.check = .ok ()) (hstore : store.Reachable Document.IsJson)
    (hjoined : ∀ row ∈ rows, row.JoinedFrom store s.tables) (hmembers : members ∈ s.groups rows) :
    ∀ a ∈ members, ∀ b ∈ members,
      (a.resolve table field s.source).equal (b.resolve table field s.source) = true := by
  have htables := h.mem_tables hcheck
  obtain ⟨k, hk, rfl, htable⟩ := h
  refine equal_of_mem_groups hmembers hk (qualify (table.getD s.source) k.field) ?_ ?_
  · intro row hrow
    have hread := (hjoined row hrow).within.resolve_eq (hnamed.groupBy k hk).2.plain
    rw [hread, hread, htable]
    exact ⟨rfl, rfl⟩
  · intro a ha b hb
    exact ((hjoined a ha).key_value_eq_iff hstore (hjoined b hb) htables k.field).mp

/-- The row computed for a group of joined rows reads the last keys, if no output name is the name
    of a group key. -/
theorem InWords.readsKeys (hnamed : s.InWords) (hcheck : s.check = .ok ())
    (hstore : store.Reachable Document.IsJson)
    (hjoined : ∀ row ∈ rows, row.JoinedFrom store s.tables)
    (houtputs : ∀ k ∈ s.groupBy, k.field ∉ s.columns.filterMap Column.outputName?)
    (hmembers : members ∈ s.groups rows) (hrow : s.groupRow members = .ok row) :
    s.ReadsKeys members row := by
  obtain ⟨a, rest, rfl⟩ := List.exists_cons_of_ne_nil (ne_nil_of_mem_groups hmembers)
  have hlast : ∀ k table, s.lastKey? k.field = some k →
      row.resolve table k.field s.source = a.resolve k.table k.field s.source :=
    fun k table hk => hnamed.resolve_key hrow hk (houtputs k (mem_of_lastKey? hk).1) table
  have hfirst : ∀ table field, s.NamesKey table field →
      row.resolve table field s.source = a.resolve table field s.source := by
    intro table field hkey
    obtain ⟨k, hk⟩ := hkey.key.exists_lastKey?
    obtain ⟨hmem, rfl⟩ := mem_of_lastKey? hk
    -- the first member has its columns under qualified names, so it reads both by their table
    have hread := (hjoined a (mem_of_mem_groups hmembers a List.mem_cons_self)).within.resolve_eq
      (hnamed.groupBy k hmem).2.plain
    rw [hlast k table hk, hread, hread, hkey.last k hk]
  refine ⟨hlast, hfirst, ?_⟩
  intro table field hkey member hmember
  rw [hfirst table field hkey]
  exact hkey.key.equal_of_joined hnamed hcheck hstore hjoined hmembers a List.mem_cons_self member
    hmember

/-- A sort key that names a group key orders computed rows as the first members of the groups. -/
theorem ReadsKeys.compareRows {a b : Row} {rest rest' : List Row}
    (h : s.ReadsKeys (a :: rest) row) (h' : s.ReadsKeys (b :: rest') row') {key : OrderKey}
    (hkey : s.NamesKey key.table key.field) :
    key.compareRows s.source row row' = key.compareRows s.source a b := by
  rw [OrderKey.compareRows, h.first _ _ hkey, h'.first _ _ hkey]
  rfl

end Select

/-- **Of group keys of one name the last is read**, by a condition on groups and by a sort key. In
    an accepted query on joined tables, named as every text names it (`wellNamed_of_ofText`), where
    no output name is the name of a group key, that is the value which all rows of the group have in
    the column that is asked for, if a group key is that column and so is the last one of its name.
    By these values groups are kept, if the columns in the condition are such columns, and by these
    a sort key orders them. -/
theorem group_keys_read_last {store : Store} {schema : Schema} {limits : Limits} {s : Select}
    {p : Prepared} {rows : List Row} (hstore : store.Reachable Document.IsJson)
    (hnamed : s.WellNamed) (hgrouped : s.isGrouped = true) (hjoins : s.joins ≠ [])
    (hprepared : Engine.prepareWith limits schema s = .ok p)
    (hrows : (p.plan.found store).result = .ok rows)
    (houtputs : ∀ k ∈ s.groupBy, k.field ∉ s.columns.filterMap Column.outputName?) :
    ∃ computed,
      -- the rows that the condition and the sort keys see
      (s.groups rows).mapM s.groupRow = .ok computed ∧
      (∀ maxRows, (p.plan.run p.query store maxRows).result
        = .ofSort ((s.finish computed).map (·.take maxRows))) ∧
      (OrderKey.Consistent s.orderBy s.source (computed.filter s.havingHolds) →
        (s.finish computed).isSome = true) ∧
      -- what they read
      List.Forall₂ s.ReadsKeys (s.groups rows) computed ∧
      -- the groups that are kept
      ((∀ c, s.having = some c → ∀ cmp ∈ c.comparisons, ∀ table field,
          cmp.subject = .column table field → s.NamesKey table field) →
        ((s.groups rows).filter fun members =>
          s.having.all (·.evaluate (s.valueOver members))).mapM s.groupRow
            = .ok (computed.filter s.havingHolds)) ∧
      -- their order
      ∀ key ∈ s.orderBy, s.NamesKey key.table key.field → ∀ a rest b rest' row row',
        a :: rest ∈ s.groups rows → s.groupRow (a :: rest) = .ok row →
        b :: rest' ∈ s.groups rows → s.groupRow (b :: rest') = .ok row' →
        key.compareRows s.source row row' = key.compareRows s.source a b := by
  obtain ⟨-, hlimits, hcheck, hplan⟩ := Engine.prepareWith_eq_ok.mp hprepared
  have hplain := Select.isPlain_of_isGrouped hgrouped
  have hquery := Limits.eq_of_enforce hplain hlimits
  rw [hquery] at hcheck hplan
  have hjoined := Select.joinedFrom_of_found hplan hnamed.tables (Select.check_eq_ok hcheck).nodup
    hstore hjoins hrows
  have hreads : ∀ members ∈ s.groups rows, ∀ row, s.groupRow members = .ok row →
      s.ReadsKeys members row := fun _ hmembers _ hrow =>
    hnamed.toInWords.readsKeys hcheck hstore hjoined houtputs hmembers hrow
  obtain ⟨computed, hcomputed⟩ := Select.exists_mapM_groupsShown hcheck rows
  have hrun := Select.run_eq_finish hplan hplain hrows hcomputed
  rw [Select.groupsShown, if_pos hgrouped] at hcomputed
  have hpairs : List.Forall₂ (fun members row => s.ReadsKeys members row ∧
      s.groupRow members = .ok row) (s.groups rows) computed :=
    ((List.forall₂_and_left _ _).mpr ⟨fun _ h => h, mapM_eq_ok_iff.mp hcomputed⟩).imp
      fun members row h => ⟨hreads members h.1 row h.2, h.2⟩
  refine ⟨computed, hcomputed, hquery ▸ hrun, Select.isSome_finish, hpairs.imp fun _ _ h => h.1,
    ?_, ?_⟩
  · intro hkeys
    refine mapM_eq_ok_iff.mpr ((forall₂_filter hpairs ?_).imp fun _ _ h => h.2)
    rintro members row ⟨hread, hrow⟩
    refine (hnamed.havingHolds_eq_evaluate hcheck hrow ?_).symm
    intro c hhaving cmp hcmp table field hsubject
    exact hread.first table field (hkeys c hhaving cmp hcmp table field hsubject)
  · intro key hkey hnames a rest b rest' row row' ha hrow hb hrow'
    exact (hreads _ ha row hrow).compareRows (hreads _ hb row' hrow') hnames

/-- The number of orders by the cities of both tables, where the city of one of them is as given. -/
def Select.sampleBoth (table city label : String) : Select :=
  { columns := [.call ⟨"COUNT", [.star]⟩ (some label)]
    source := "users"
    indexHint := none
    joins := [⟨"orders", none, [⟨"users", "name", "orders", "user"⟩]⟩]
    filter := none
    groupBy := [⟨some "users", "city"⟩, ⟨some "orders", "city"⟩]
    having := some (.compare ⟨.column (some table) "city", .eq, .text city⟩)
    orderBy := [⟨some table, "city", .ascending⟩]
    limit := none }

/-- What the rows of each group have in that column, what is read there for the group, and the
    result. -/
def Select.sampleBothReads (table city label : String) :
    Outcome QueryError (List (List Value) × List Value × List Row) := do
  let s := sampleBoth table city label
  let p ← .ofChecked (Engine.prepareWith .standard Store.sampleCities.schema s)
  let rows ← (p.plan.found Store.sampleCities).result
  let computed ← .ofChecked ((s.groups rows).mapM s.groupRow)
  let shown ← .ofSort (s.finish computed)
  let read (row : Row) := row.resolve (some table) "city" s.source
  .ok ((s.groups rows).map (·.map read), computed.map read, shown)

/-- The city of the orders is the last group key of its name. -/
theorem group_keys_read_last_sample :
    ∃ p rows computed,
      Engine.prepareWith .standard Store.sampleCities.schema (.sampleBoth "orders" "Oslo" "n")
        = .ok p ∧
      (p.plan.found Store.sampleCities).result = .ok rows ∧
      (Select.sampleBoth "orders" "Oslo" "n").NamesKey (some "orders") "city" ∧
      List.Forall₂ (Select.sampleBoth "orders" "Oslo" "n").ReadsKeys
        ((Select.sampleBoth "orders" "Oslo" "n").groups rows) computed ∧
      computed.map (·.resolve (some "orders") "city" "users") = [.text "Oslo", .text "Bern"] ∧
      (((Select.sampleBoth "orders" "Oslo" "n").groups rows).filter fun members =>
        (Select.sampleBoth "orders" "Oslo" "n").having.all
          (·.evaluate ((Select.sampleBoth "orders" "Oslo" "n").valueOver members))).mapM
            (Select.sampleBoth "orders" "Oslo" "n").groupRow
        = .ok (computed.filter (Select.sampleBoth "orders" "Oslo" "n").havingHolds) ∧
      (p.plan.run p.query Store.sampleCities 10).result
        = .ok [.ofList [("n", .number (.ofNat 1))]] := by
  have htext : Select.ofText ("SELECT COUNT(*) AS n FROM users "
      ++ "JOIN orders ON users.name = orders.user GROUP BY users.city, orders.city "
      ++ "HAVING orders.city = 'Oslo' ORDER BY orders.city")
      = .ok (.sampleBoth "orders" "Oslo" "n") :=
    eq_ok_of_toOption (by decide +kernel)
  have hreads : Select.sampleBothReads "orders" "Oslo" "n"
      = .ok ([[.text "Oslo"], [.text "Bern"]], [.text "Oslo", .text "Bern"],
        [.ofList [("n", .number (.ofNat 1))]]) :=
    eq_ok_of_toOption (by decide +kernel)
  have hnames : (Select.sampleBoth "orders" "Oslo" "n").NamesKey (some "orders") "city" := by
    refine ⟨⟨⟨some "orders", "city"⟩, List.mem_cons_of_mem _ List.mem_cons_self, rfl, rfl⟩, ?_⟩
    rintro k ⟨⟩
    rfl
  obtain ⟨p, hprepared, hreads⟩ := bind_eq_ok_iff.mp hreads
  have hprepared := Outcome.ofChecked_eq_ok_iff.mp hprepared
  obtain ⟨rows, hrows, hreads⟩ := bind_eq_ok_iff.mp hreads
  obtain ⟨computed, hcomputed, hrun, -, hkeys, hkept, -⟩ := group_keys_read_last
    Store.reachable_sampleCities (Select.wellNamed_of_ofText htext) rfl (fun hnil => nomatch hnil)
    hprepared hrows (by decide)
  obtain ⟨computed', hcomputed', hreads⟩ := bind_eq_ok_iff.mp hreads
  obtain rfl := Except.ok.inj (hcomputed.symm.trans (Outcome.ofChecked_eq_ok_iff.mp hcomputed'))
  obtain ⟨shown, hshown, hread⟩ := bind_eq_ok_iff.mp hreads
  have hshown := Outcome.ofSort_eq_ok_iff.mp hshown
  have hread := Except.ok.inj hread
  rw [Prod.mk.injEq, Prod.mk.injEq] at hread
  obtain ⟨-, hvalues, rfl⟩ := hread
  refine ⟨p, rows, computed, hprepared, hrows, hnames, hkeys, hvalues, hkept ?_, ?_⟩
  · rintro c ⟨⟩ cmp hcmp table field hsubject
    rw [List.mem_singleton.mp hcmp] at hsubject
    obtain ⟨rfl, rfl⟩ := Subject.column.inj hsubject
    exact hnames
  · rw [hrun 10, hshown]
    rfl

/-- The city of the users is a group key, too, but the city of the orders comes after it: the
    condition on the users' city reads that, and both groups are lost though all their rows have
    the city that is asked for. A label with a point, which no text writes, is read in place of the
    last key as well. -/
theorem group_key_shadowed :
    Store.sampleCities.Reachable Document.IsJson ∧
    Select.ofText ("SELECT COUNT(*) AS n FROM users JOIN orders ON users.name = orders.user "
      ++ "GROUP BY users.city, orders.city HAVING users.city = 'Rome' ORDER BY users.city")
      = .ok (.sampleBoth "users" "Rome" "n") ∧
    (Select.sampleBoth "users" "Rome" "n").Determines (some "users") "city" ∧
    "city" ∉ (Select.sampleBoth "users" "Rome" "n").columns.filterMap Column.outputName? ∧
    Select.sampleBothReads "users" "Rome" "n"
      = .ok ([[.text "Rome"], [.text "Rome"]], [.text "Oslo", .text "Bern"], []) ∧
    -- a label with a point
    "city" ∉ (Select.sampleBoth "orders" "Oslo" "orders.city").columns.filterMap
      Column.outputName? ∧
    Select.sampleBothReads "orders" "Oslo" "orders.city"
      = .ok ([[.text "Oslo"], [.text "Bern"]], [.number (.ofNat 1), .number (.ofNat 1)], []) :=
  ⟨Store.reachable_sampleCities, eq_ok_of_toOption (by decide +kernel),
    ⟨⟨some "users", "city"⟩, List.mem_cons_self, rfl, rfl⟩, by decide,
    eq_ok_of_toOption (by decide +kernel), by decide, eq_ok_of_toOption (by decide +kernel)⟩

end DocQuery
