import DocQuery.Plan.Query
import DocQuery.Proofs.Except
import DocQuery.Proofs.Store.Scan

/-!
# An access path reads the rows that meet its conditions

The walk over the fields of an index splits the conditions into bounds and a residual. No
condition is lost or told twice: a row lies within the bounds and passes the residual just
when it meets every condition (`walk_spec`). So a read through an index and a full scan
return the same rows (`Serves.fetch`), whichever of them was planned.
-/

namespace DocQuery

namespace AccessPath

variable {row : Row} {field index : String}

-- ── Taking bounds ───────────────────────────────────────────────────────────

theorem toOperator_of_ofOperator? {op : Operator} {b : BoundOp}
    (h : BoundOp.ofOperator? op = some b) : b.toOperator = op := by
  cases op <;> cases b <;> first | rfl | exact nomatch h

/-- A bound that a condition makes says what the condition says, and is on the field. -/
theorem boundOn?_spec {accept : Operator → Bool} {c : Condition} {b : Bound}
    (h : boundOn? field accept c = some b) :
    b.field = field ∧ ∀ row, b.holds row = c.toFilter.holds row := by
  unfold boundOn? at h
  split at h
  · rename_i table f op value
    split at h
    · rename_i hcond
      obtain ⟨bop, hop, rfl⟩ := Option.map_eq_some_iff.mp h
      refine ⟨hcond.1, ?_⟩
      intro row
      show bop.toOperator.holds (row.value f) value = _
      rw [toOperator_of_ofOperator? hop]
      rfl
    · exact nomatch h
  · exact nomatch h

/-- What is taken and what is left say together what the conditions say. -/
theorem takeBound_spec (field : String) (accept : Operator → Bool) (cs : List Condition) :
    (∀ b ∈ (takeBound (boundOn? field accept) cs).1, b.field = field) ∧
      ∀ row, ((takeBound (boundOn? field accept) cs).1.all (·.holds row)
        && (takeBound (boundOn? field accept) cs).2.all (·.toFilter.holds row))
          = cs.all (·.toFilter.holds row) := by
  induction cs with
  | nil => exact ⟨fun b hb => (nomatch hb), fun row => rfl⟩
  | cons c cs ih =>
      rw [takeBound]
      cases hc : boundOn? field accept c with
      | some b =>
          obtain ⟨hfield, hholds⟩ := boundOn?_spec hc
          refine ⟨?_, ?_⟩
          · intro b' hb'
            rw [← Option.some.inj hb']
            exact hfield
          · intro row
            rw [List.all_cons, ← hholds row]
            rfl
      | none =>
          refine ⟨ih.1, ?_⟩
          intro row
          rw [List.all_cons, List.all_cons, ← ih.2 row, ← Bool.and_assoc, ← Bool.and_assoc,
            Bool.and_comm (Option.all _ _)]

-- ── Walking the fields ──────────────────────────────────────────────────────

theorem holds_toList (b : Option Bound) (row : Row) :
    IndexRange.holds row b.toList = b.all (·.holds row) := by
  cases b with
  | none => rfl
  | some b => exact Bool.and_true _

/-- The bounds are on fields of the index, and with the residual they say what the conditions
    say. -/
theorem walk_spec {fields : List String} {conditions residual : List Condition}
    {range : IndexRange} (h : walk index fields conditions = .ok (range, residual)) :
    (∀ b ∈ range, b.field ∈ fields) ∧
      ∀ row, (range.holds row && residual.all (·.toFilter.holds row))
        = conditions.all (·.toFilter.holds row) := by
  induction fields generalizing conditions residual range with
  | nil =>
      obtain ⟨rfl, rfl⟩ := Prod.mk.inj (Except.ok.inj h)
      exact ⟨fun b hb => (nomatch hb), fun row => rfl⟩
  | cons field fields ih =>
      rw [walk] at h
      have heq := takeBound_spec field (· == .eq) conditions
      split at h
      · rename_i b rest htake
        rw [htake] at heq
        obtain ⟨⟨bounds, left⟩, hwalk, hok⟩ := bind_eq_ok_iff.mp h
        obtain ⟨rfl, rfl⟩ := Prod.mk.inj (Except.ok.inj hok)
        obtain ⟨hfields, hholds⟩ := ih hwalk
        refine ⟨?_, ?_⟩
        · intro b' hb'
          rcases List.mem_cons.mp hb' with rfl | hb'
          · rw [heq.1 b' rfl]
            exact List.mem_cons_self
          · exact List.mem_cons_of_mem _ (hfields b' hb')
        · intro row
          rw [IndexRange.holds_cons, Bool.and_assoc, hholds row]
          exact heq.2 row
      · have hlower := takeBound_spec field isLower conditions
        have hupper := takeBound_spec field isUpper
          (takeBound (boundOn? field isLower) conditions).2
        dsimp only at h
        split at h
        · exact nomatch h
        · split at h
          · exact nomatch h
          · obtain ⟨rfl, rfl⟩ := Prod.mk.inj (Except.ok.inj h)
            refine ⟨?_, ?_⟩
            · intro b hb
              refine List.mem_cons.mpr (Or.inl ?_)
              rcases List.mem_append.mp hb with hb | hb
              · exact hlower.1 b (Option.mem_toList.mp hb)
              · exact hupper.1 b (Option.mem_toList.mp hb)
            · intro row
              rw [IndexRange.holds_append, holds_toList, holds_toList, Bool.and_assoc,
                hupper.2 row, hlower.2 row]

/-- A path through an index has the bounds that the walk found and the rest as its filter. -/
theorem throughIndex_eq_ok {schema : Schema} {table : String} {conditions : List Condition}
    {access : AccessPath} (h : throughIndex schema table index conditions = .ok access) :
    ∃ fields range residual, schema.indexFields? table index = some fields ∧
      walk index fields conditions = .ok (range, residual) ∧
      access = .index index fields range (Condition.toFilter? residual) := by
  rw [throughIndex] at h
  cases hfields : schema.indexFields? table index with
  | none =>
      rw [hfields] at h
      exact nomatch h
  | some fields =>
      rw [hfields] at h
      obtain ⟨⟨range, residual⟩, hwalk, hok⟩ := bind_eq_ok_iff.mp h
      exact ⟨fields, range, residual, rfl, hwalk, (Except.ok.inj hok).symm⟩

-- ── Access paths that serve conditions ──────────────────────────────────────

/-- On the table, the access path admits the rows that meet the conditions. -/
inductive Serves (t : StoredTable) (conditions : List Condition) : AccessPath → Prop where
  | fullScan : Serves t conditions (.fullScan (Condition.toFilter? conditions))
  | index {index : String} {fields : List String} {range : IndexRange}
      {residual : Option Filter} :
      t.indexes.get? index = some fields → (∀ b ∈ range, b.field ∈ fields) →
      (∀ row, (range.holds row && residual.all (·.holds row))
        = conditions.all (·.toFilter.holds row)) →
      Serves t conditions (.index index fields range residual)

variable {store : Store} {table : String} {t : StoredTable} {conditions : List Condition}
  {access : AccessPath}

/-- The access path admits the rows that meet the conditions. Whether a store has the index it
    was planned for is another matter. -/
def Selects (conditions : List Condition) : AccessPath → Prop
  | .fullScan filter =>
    ∀ row, filter.all (·.holds row) = conditions.all (·.toFilter.holds row)
  | .index _ _ range residual => ∀ row,
    (range.holds row && residual.all (·.holds row)) = conditions.all (·.toFilter.holds row)

theorem selects_fullScan (conditions : List Condition) :
    (fullScan (Condition.toFilter? conditions)).Selects conditions :=
  fun _ => Condition.all_holds_toFilter? conditions

/-- What the planner makes of an index of any schema selects by the conditions. -/
theorem selects_throughIndex {schema : Schema}
    (h : throughIndex schema table index conditions = .ok access) : access.Selects conditions := by
  obtain ⟨fields, range, residual, -, hwalk, rfl⟩ := throughIndex_eq_ok h
  intro row
  rw [Condition.all_holds_toFilter?]
  exact (walk_spec hwalk).2 row

/-- What is fetched by an access path that the store opens are the rows that meet the
    conditions it selects by, in some order. -/
theorem Selects.fetch_perm (h : access.Selects conditions) (ht : store.tables.get? table = some t)
    {direction : Option Direction} {rows : List Row}
    (hfetch : (store.fetch table access direction none).result = .ok rows) :
    rows.Perm (t.rows.filter fun row => conditions.all (·.toFilter.holds row)) := by
  cases access with
  | fullScan filter =>
      rw [Store.fetch_fullScan ht, Outcome.ofSort_eq_ok_iff, Scan.take_none] at hfetch
      refine (Scan.rows_perm hfetch).trans (List.Perm.of_eq (List.filter_congr ?_))
      intro row _
      rw [Scan.admits, Scan.all_holds_toList, Bool.true_and]
      exact h row
  | index name planned range residual =>
      obtain ⟨t', fields, ht', hget, hrange⟩ :=
        Store.opens_index_iff.mp (Store.opens_of_fetch hfetch)
      rw [ht] at ht'
      obtain rfl := Option.some.inj ht'
      rw [Store.fetch_index ht hget hrange, Outcome.ofSort_eq_ok_iff, Scan.take_none] at hfetch
      refine (Scan.rows_perm hfetch).trans (List.Perm.of_eq (List.filter_congr ?_))
      intro row _
      rw [Scan.admits, Scan.all_holds_toList]
      exact h row

/-- A path that serves conditions selects by them, and the store opens it. -/
theorem Serves.selects (h : access.Serves t conditions) : access.Selects conditions := by
  cases h with
  | fullScan => exact selects_fullScan conditions
  | index _ _ hholds => exact hholds

/-- A path that serves a table can be opened on it. -/
theorem Serves.opens (h : access.Serves t conditions) (ht : store.tables.get? table = some t) :
    store.Opens table access := by
  cases h with
  | fullScan => exact Store.opens_fullScan ht _
  | index hget hrange _ => exact Store.opens_index_iff.mpr ⟨t, _, ht, hget, hrange⟩

/-- What the planner makes of an index of the store serves the conditions. -/
theorem serves_throughIndex (ht : store.tables.get? table = some t)
    (h : throughIndex store.schema table index conditions = .ok access) :
    access.Serves t conditions := by
  obtain ⟨fields, range, residual, hfields, hwalk, rfl⟩ := throughIndex_eq_ok h
  obtain ⟨t', ht', hindex⟩ := Store.indexFields?_schema_eq_some.mp hfields
  rw [ht] at ht'
  obtain rfl := Option.some.inj ht'
  obtain ⟨hrange, hholds⟩ := walk_spec hwalk
  refine .index hindex hrange ?_
  intro row
  rw [Condition.all_holds_toFilter?]
  exact hholds row

/-- The order in which the store gives rows: that of creation in a full scan, either way
    round, and that of the fields through an index, unless the sort panics. -/
def arrange (direction : Option Direction) (rows : List Row) : AccessPath → Option (List Row)
  | .fullScan _ => some (if direction = some .descending then rows.reverse else rows)
  | .index _ fields _ _ => Sorting.stableSort Scan.referenceBytes
      (Scan.compareRows fields (direction.getD .ascending)) rows

/-- To arrange rows neither adds nor drops any. -/
theorem arrange_perm {direction : Option Direction} {rows arranged : List Row}
    (h : access.arrange direction rows = some arranged) : arranged.Perm rows := by
  cases access with
  | fullScan filter =>
      rw [← Option.some.inj h]
      split
      · exact rows.reverse_perm
      · exact List.Perm.refl _
  | index _ fields _ _ => exact Sorting.stableSort_perm h

/-- A fetch by a path that serves conditions is one scan of the rows that meet them. -/
theorem Serves.fetch (h : access.Serves t conditions) (ht : store.tables.get? table = some t)
    (direction : Option Direction) :
    ∃ q : Scan, (∀ count, (store.fetch table access direction count).result
        = .ofSort (q.take count)) ∧
      q.rows = access.arrange direction
        (t.rows.filter fun row => conditions.all (·.toFilter.holds row)) := by
  cases h with
  | fullScan =>
      refine ⟨_, fun count => Store.fetch_fullScan ht _, ?_⟩
      have hadmits : t.rows.filter (Scan.admits ⟨table, t, none,
          (Condition.toFilter? conditions).toList, direction.getD .ascending⟩)
          = t.rows.filter fun row => conditions.all (·.toFilter.holds row) := by
        refine List.filter_congr ?_
        intro row _
        rw [Scan.admits, Scan.all_holds_toList, Condition.all_holds_toFilter?, Bool.true_and]
      rw [Scan.rows, hadmits]
      rcases direction with _ | _ | _ <;> rfl
  | @index _ fields range residual hindex hrange hholds =>
      refine ⟨_, fun count => Store.fetch_index ht hindex hrange _ _, ?_⟩
      have hadmits : t.rows.filter (Scan.admits ⟨table, t, some ⟨fields, range⟩, residual.toList,
          direction.getD .ascending⟩)
          = t.rows.filter fun row => conditions.all (·.toFilter.holds row) := by
        refine List.filter_congr ?_
        intro row _
        rw [Scan.admits, Scan.all_holds_toList]
        exact hholds row
      rw [Scan.rows, hadmits]
      rfl

end AccessPath

-- ── Planned access ──────────────────────────────────────────────────────────

variable {store : Store} {t : StoredTable}

/-- The planned path serves the table that is selected from. -/
theorem Select.serves_planAccess {s : Select} {access : AccessPath}
    (ht : store.tables.get? s.source = some t) (h : s.planAccess store.schema = .ok access) :
    access.Serves t s.sourceConjuncts := by
  rw [planAccess] at h
  split at h
  · exact AccessPath.serves_throughIndex ht h
  · rw [← Except.ok.inj h]
    exact .fullScan

/-- By whatever schema it is planned, the read of the first table selects by the conjuncts on
    it. -/
theorem Select.selects_planAccess {s : Select} {schema : Schema} {access : AccessPath}
    (h : s.planAccess schema = .ok access) : access.Selects s.sourceConjuncts := by
  rw [planAccess] at h
  split at h
  · exact AccessPath.selects_throughIndex h
  · rw [← Except.ok.inj h]
    exact AccessPath.selects_fullScan _

/-- Whatever a hint makes of the read of a joined table, it selects by the conjuncts. -/
theorem JoinPlan.selects_accessFor (schema : Schema) (join : Join) (conjuncts : List Condition) :
    (accessFor schema join conjuncts).Selects conjuncts := by
  rw [accessFor]
  split
  · exact AccessPath.selects_fullScan conjuncts
  · split
    · rename_i access haccess
      exact AccessPath.selects_throughIndex haccess
    · exact AccessPath.selects_fullScan conjuncts

/-- The path planned for a join serves the joined table. -/
theorem JoinPlan.serves_accessFor {join : Join} (ht : store.tables.get? join.table = some t)
    (conjuncts : List Condition) :
    (accessFor store.schema join conjuncts).Serves t conjuncts := by
  rw [accessFor]
  split
  · exact .fullScan
  · split
    · rename_i access haccess
      exact AccessPath.serves_throughIndex ht haccess
    · exact .fullScan

end DocQuery
