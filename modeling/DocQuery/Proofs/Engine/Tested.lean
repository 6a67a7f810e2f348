import DocQuery.Proofs.Engine.Single
import DocQuery.Proofs.Result.Projection

/-!
# Conditions test what is shown

There are two readers of a field. A condition is handed to the store, which looks a field of a row
up by its bare name; a column is looked up by the engine, which also tries the name qualified by
the table, since it does not know whether the row is joined. They read the same of a row that has
no field under the qualified name (`Row.Unshadowed`), so of such a row a query on one table tests
just the value that it shows (`pushed_tests_shown`). Of another row it may show one field and test
the other (`shown_is_not_tested`).
-/

namespace DocQuery

variable {s : Select} {store : Store} {schema : Schema} {row : Row} {w : Condition}

-- ── The two readers ─────────────────────────────────────────────────────────

/-- The value that a query shows of a row of its table in a column. -/
def Row.shown (source : String) (row : Row) : Subject → Value
  | .column table field => (projectRow [.field table field none] source row).value field
  | .call _ => .null

/-- The row has no field under the qualified name of the column that would be shown in place of
    the field itself. -/
def Row.Unshadowed (source : String) (row : Row) : Subject → Prop
  | .column table field =>
    (row.get? (qualify source field)).isSome → table = none ∧ (row.get? field).isSome
  | .call _ => True

namespace Row

variable {table : Option String} {source field : String}

theorem shown_column (source : String) (row : Row) (table : Option String) (field : String) :
    row.shown source (.column table field) = row.resolve table field source := by
  rw [shown, projectRow, List.flatMap_singleton, value, Keyed.get?_ofList]
  show (Keyed.findEntry field [(field, row.resolve table field source)]).getD .null = _
  rw [Keyed.findEntry, if_pos rfl]
  rfl

/-- What is shown in a column of the table is the field itself or, if that is shadowed, what
    stands under the qualified name. -/
theorem shown_eq (htable : table.getD source = source) :
    (row.Unshadowed source (.column table field) →
      row.shown source (.column table field) = row.value field) ∧
    (¬ row.Unshadowed source (.column table field) →
      row.shown source (.column table field) = row.value (qualify source field)) := by
  rw [shown_column, Unshadowed, value, value]
  cases table with
  | none =>
      show (_ → ((row.get? field).or (row.get? (qualify source field))).getD .null = _) ∧
        (_ → ((row.get? field).or (row.get? (qualify source field))).getD .null = _)
      cases hfield : row.get? field with
      | some v => exact ⟨fun _ => rfl, fun h => absurd (fun _ => ⟨rfl, rfl⟩) h⟩
      | none =>
          refine ⟨fun h => ?_, fun _ => rfl⟩
          cases hqualified : row.get? (qualify source field) with
          | none => rfl
          | some v =>
              rw [hqualified] at h
              exact absurd (h rfl).2 Bool.false_ne_true
  | some t =>
      obtain rfl : t = source := htable
      show (_ → ((row.get? (qualify t field)).or (row.get? field)).getD .null = _) ∧
        (_ → ((row.get? (qualify t field)).or (row.get? field)).getD .null = _)
      cases hqualified : row.get? (qualify t field) with
      | none =>
          exact ⟨fun _ => rfl, fun h => absurd (fun hsome => absurd hsome Bool.false_ne_true) h⟩
      | some v => exact ⟨fun h => absurd (h rfl).1 (Option.some_ne_none t), fun _ => rfl⟩

/-- A row of plain names shadows nothing. -/
theorem HasPlainNames.unshadowed (h : row.HasPlainNames) (source : String) (x : Subject) :
    row.Unshadowed source x := by
  cases x with
  | call _ => exact trivial
  | column table field =>
      intro hsome
      rw [h.get?_qualify] at hsome
      exact absurd hsome Bool.false_ne_true

end Row

-- ── What the store tests ────────────────────────────────────────────────────

/-- **The condition is tested by the read of the table**, in a query on one table, through an index
    or not; the read is granted by the schema of the store, and panics over no sortable store. In a
    row that shadows nothing every comparison tests the value that the query would show in its
    column; in a row that shadows the column, the query would show another field. -/
theorem pushed_tests_shown {limits : Limits} {p : Prepared} {t : StoredTable}
    (hprepared : Engine.prepareWith limits schema s = .ok p) (hjoins : s.joins = [])
    (hfilter : s.filter = some w) (ht : store.tables.get? s.source = some t) :
    (∀ direction read, (store.fetch p.plan.table p.plan.access direction none).result = .ok read →
      read.Perm (t.rows.filter fun row => w.toFilter.holds row)) ∧
    (schema = store.schema → ∀ direction,
      (store.fetch p.plan.table p.plan.access direction none).result.Granted ∧
        (store.Sortable → ∃ read,
          (store.fetch p.plan.table p.plan.access direction none).result = .ok read)) ∧
    ∀ row : Row,
      (∀ cmp ∈ w.comparisons,
        (row.Unshadowed s.source cmp.subject → (Condition.compare cmp).toFilter.holds row
          = cmp.operator.holds (row.shown s.source cmp.subject) cmp.value) ∧
        (¬ row.Unshadowed s.source cmp.subject →
          row.shown s.source cmp.subject = row.value (qualify s.source cmp.subject.field))) ∧
      ((∀ cmp ∈ w.comparisons, row.Unshadowed s.source cmp.subject) →
        w.toFilter.holds row = w.evaluate (row.shown s.source)) := by
  obtain ⟨-, hlimits, hcheck, hplan⟩ := Engine.prepareWith_eq_ok.mp hprepared
  have hquery := (Limits.enforce_eq_ok hlimits).1
  rw [hquery] at hcheck hplan
  have hchecked : s.Checked := by
    have h := Select.check_eq_ok hcheck
    exact ⟨h.nodup, h.qualifiers, h.noCall, h.shape⟩
  obtain ⟨htable, haccess, -, -, -⟩ := Select.plan_eq_ok hplan
  have hconjuncts : ∀ row, s.sourceConjuncts.all (·.toFilter.holds row) = w.toFilter.holds row := by
    intro row
    rw [hchecked.sourceConjuncts_eq hjoins, Select.conjuncts, hfilter]
    exact Condition.all_holds_toFilter_conjuncts w
  have hshown : ∀ cmp ∈ w.comparisons, ∀ row : Row,
      (row.Unshadowed s.source cmp.subject →
        row.shown s.source cmp.subject = row.value cmp.subject.field) ∧
      (¬ row.Unshadowed s.source cmp.subject →
        row.shown s.source cmp.subject = row.value (qualify s.source cmp.subject.field)) := by
    intro cmp hcmp row
    obtain ⟨table, field, hsubject, hmem⟩ := hchecked.exists_column hfilter hcmp
    rw [Select.tables, hjoins, List.map_nil, List.mem_singleton] at hmem
    rw [hsubject]
    exact Row.shown_eq hmem
  refine ⟨?_, ?_, ?_⟩
  · intro direction read hread
    rw [htable] at hread
    have hperm := (Select.selects_planAccess haccess).fetch_perm ht hread
    exact hperm.trans (List.Perm.of_eq (List.filter_congr fun row _ => hconjuncts row))
  · rintro rfl direction
    obtain ⟨q, hfetch, -⟩ := (Select.serves_planAccess ht haccess).fetch ht direction
    have hgranted : (store.fetch p.plan.table p.plan.access direction none).result.Granted := by
      rw [htable, hfetch none]
      exact Outcome.granted_ofSort _
    exact ⟨hgranted, fun hsortable => hgranted.exists_ok (hsortable.calm_fetch _ _ _ _)⟩
  · intro row
    refine ⟨?_, ?_⟩
    · intro cmp hcmp
      refine ⟨fun h => ?_, (hshown cmp hcmp row).2⟩
      rw [(hshown cmp hcmp row).1 h]
      rfl
    · intro h
      exact Condition.holds_toFilter_eq_evaluate fun cmp hcmp =>
        ((hshown cmp hcmp row).1 (h cmp hcmp)).symm

/-- The name of the users above an age, by the index on it. -/
def Select.sampleTested : Select :=
  { Select.sampleNewest with indexHint := some "by_age", orderBy := [], limit := none }

theorem pushed_tests_shown_sample : ∃ t p read,
    Store.sample.tables.get? "users" = some t ∧
    Engine.prepareWith .standard Store.sample.schema .sampleTested = .ok p ∧
    p.plan.access.index? = some "by_age" ∧
    (Store.sample.fetch p.plan.table p.plan.access none none).result = .ok read ∧
    read.length = 2 ∧
    read.Perm (t.rows.filter fun row =>
      Operator.gt.holds (row.shown "users" (.column none "age")) (.number (.ofNat 20))) := by
  have hindex : (Engine.prepareWith .standard Store.sample.schema .sampleTested).map
      (·.plan.access.index?) = .ok (some "by_age") := eq_ok_of_toOption (by decide +kernel)
  have hcount : (Store.sample.tables.get? "users").map (fun t => (t.rows.filter fun row =>
      Operator.gt.holds (row.shown "users" (.column none "age")) (.number (.ofNat 20))).length)
      = some 2 := by decide +kernel
  obtain ⟨p, hprepared, hindex⟩ := map_eq_ok_iff.mp hindex
  obtain ⟨t, ht, hcount⟩ := Option.map_eq_some_iff.mp hcount
  obtain ⟨hperm, hruns, htests⟩ := pushed_tests_shown hprepared rfl rfl ht
  obtain ⟨read, hread⟩ := (hruns rfl none).2 Store.sortable_sample
  have hshown : read.Perm (t.rows.filter fun row =>
      Operator.gt.holds (row.shown "users" (.column none "age")) (.number (.ofNat 20))) := by
    refine (hperm none read hread).trans (List.Perm.of_eq (List.filter_congr fun row hrow => ?_))
    have hplain := (Store.reachable_sample.mono fun _ h => h.2).plain ht row hrow
    exact (htests row).2 fun cmp _ => hplain.unshadowed _ cmp.subject
  exact ⟨t, p, read, ht, hprepared, hindex, hread, hshown.length_eq.trans hcount, hshown⟩

/-- A query shows one field and tests another: the age that is shown of the first user is not the
    one that is asked for, a user without an age shows one, and that age is not found. -/
theorem shown_is_not_tested :
    Database.sampleDotted.store.Reachable Document.IsJson ∧
    (Engine.sample.execute Database.sampleDotted
        "SELECT users.age FROM users WHERE users.age = 5").1
      = .ok [Keyed.ofList [("age", .number (.ofNat 31))]] ∧
    (Engine.sample.execute Database.sampleDotted "SELECT age FROM users WHERE age = NULL").1
      = .ok [Keyed.ofList [("age", .number (.ofNat 27))], Keyed.ofList [("age", .null)]] ∧
    (Engine.sample.execute Database.sampleDotted "SELECT name FROM users WHERE age = 27").1
      = .ok [] :=
  ⟨Store.reachable_sampleDotted, eq_ok_of_toOption (by decide +kernel),
    eq_ok_of_toOption (by decide +kernel), eq_ok_of_toOption (by decide +kernel)⟩

end DocQuery
