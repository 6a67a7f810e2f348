import DocQuery.Proofs.Except
import DocQuery.Proofs.Filter
import DocQuery.Proofs.Keyed
import DocQuery.Proofs.Sorting.Stable
import DocQuery.Proofs.Value.Order
import DocQuery.Result.Fetch

/-!
# What a fetch returns

A scan that is opened is that of the whole table (`scan_eq_ok_iff`). A fetch on a table that is
there, through an index that is there with fields for all bounds, is granted and otherwise refused
(`granted_fetch_iff`); one that is granted returns the rows of one scan, unless their sort panics
(`fetch_fullScan`, `fetch_index`). Whatever the order of a scan is, its rows are the admitted ones
(`Scan.rows_perm`).
-/

namespace DocQuery

-- ── Outcomes ────────────────────────────────────────────────────────────────

namespace Outcome

variable {ε α β : Type} {x : Outcome ε α}

/-- There is no refusal: there is a result, or a sort panics. -/
def Granted (x : Outcome ε α) : Prop :=
  ∀ e, x ≠ .error (.refused e)

theorem granted_ok (a : α) : Granted (.ok a : Outcome ε α) :=
  fun _ h => nomatch h

theorem granted_panicked : Granted (.error .panicked : Outcome ε α) :=
  fun _ h => nomatch h

theorem granted_ofSort (x : Option α) : Granted (.ofSort x : Outcome ε α) := by
  cases x with
  | none => exact granted_panicked
  | some a => exact granted_ok a

theorem not_granted_refused (e : ε) : ¬ Granted (.error (.refused e) : Outcome ε α) :=
  fun h => h e rfl

/-- Granted is what panics or has a result. -/
theorem granted_iff : x.Granted ↔ x = .error .panicked ∨ ∃ a, x = .ok a := by
  match x with
  | .ok a => exact iff_of_true (granted_ok a) (.inr ⟨a, rfl⟩)
  | .error .panicked => exact iff_of_true granted_panicked (.inl rfl)
  | .error (.refused e) =>
      refine iff_of_false (not_granted_refused e) ?_
      rintro (h | ⟨a, h⟩) <;> exact nomatch h

/-- What is not granted is refused for a cause. -/
theorem exists_refused (h : ¬ x.Granted) : ∃ e, x = .error (.refused e) := by
  match x with
  | .ok a => exact absurd (granted_ok a) h
  | .error .panicked => exact absurd granted_panicked h
  | .error (.refused e) => exact ⟨e, rfl⟩

/-- Where no sort panics, what is granted has a result. -/
theorem Granted.exists_ok (h : x.Granted) (hpanic : x ≠ .error .panicked) : ∃ a, x = .ok a :=
  (granted_iff.mp h).resolve_left hpanic

/-- Outcomes that are both granted agree if either has a result just when the other one does. -/
theorem Granted.agree {y : Outcome ε β} {R : α → β → Prop} (hx : x.Granted) (hy : y.Granted)
    (hok : (∃ a, x = .ok a) ↔ ∃ b, y = .ok b) (hR : ∀ a b, x = .ok a → y = .ok b → R a b) :
    Agree R x y := by
  rcases granted_iff.mp hx with rfl | ⟨a, rfl⟩
  · rcases granted_iff.mp hy with rfl | ⟨b, rfl⟩
    · exact .error _
    · obtain ⟨a, ha⟩ := hok.mpr ⟨b, rfl⟩
      exact nomatch ha
  · obtain ⟨b, rfl⟩ := hok.mp ⟨a, rfl⟩
    exact .ok (hR a b rfl rfl)

/-- A run goes on being granted if its next step is. -/
theorem Granted.bind {next : α → Outcome ε β} (h : x.Granted)
    (hnext : ∀ a, x = .ok a → (next a).Granted) : Granted (x >>= next) := by
  rcases granted_iff.mp h with rfl | ⟨a, rfl⟩
  · exact granted_panicked
  · exact hnext a rfl

/-- Where the next step is always granted, a run is granted if it begins so, and only then. -/
theorem granted_bind_iff {next : α → Outcome ε β}
    (hnext : ∀ a, x = .ok a → (next a).Granted) : Granted (x >>= next) ↔ x.Granted := by
  refine ⟨fun h e he => ?_, fun h => h.bind hnext⟩
  rw [he] at h
  exact h e rfl

theorem Granted.map {f : α → β} (h : x.Granted) : Granted (x.map f) := by
  rcases granted_iff.mp h with rfl | ⟨a, rfl⟩
  · exact granted_panicked
  · exact granted_ok (f a)

/-- A check that succeeds is a result. -/
@[simp] theorem ofChecked_eq_ok_iff {x : Except ε α} {a : α} :
    ofChecked x = .ok a ↔ x = .ok a := by
  cases x with
  | error e => exact iff_of_false (fun h => nomatch h) (fun h => nomatch h)
  | ok b => exact ⟨fun h => congrArg Except.ok (Except.ok.inj h), fun h => h ▸ rfl⟩

/-- A sort that returns is a result. -/
@[simp] theorem ofSort_eq_ok_iff {x : Option α} {a : α} :
    (ofSort x : Outcome ε α) = .ok a ↔ x = some a := by
  cases x with
  | none => exact iff_of_false (fun h => nomatch h) (fun h => nomatch h)
  | some b => exact ⟨fun h => congrArg some (Except.ok.inj h), fun h => h ▸ rfl⟩

end Outcome

-- ── Readings ────────────────────────────────────────────────────────────────

namespace Reading

variable {α β : Type}

/-- The result of two readings is that of both results in turn. -/
theorem result_bind (r : Reading α) (next : α → Reading β) :
    (r >>= next).result = r.result >>= fun a => (next a).result := by
  show (r.andThen next).result = _
  rw [andThen]
  cases r.result <;> rfl

theorem result_bind_ok {r : Reading α} {a : α} (h : r.result = .ok a) (next : α → Reading β) :
    (r >>= next).result = (next a).result := by
  rw [result_bind, h]
  rfl

theorem result_bind_error {r : Reading α} {e : Failure QueryError} (h : r.result = .error e)
    (next : α → Reading β) : (r >>= next).result = .error e := by
  rw [result_bind, h]
  rfl

/-- If two readings in turn have a result, both have one. -/
theorem result_bind_eq_ok {r : Reading α} {next : α → Reading β} {b : β}
    (h : (r >>= next).result = .ok b) : ∃ a, r.result = .ok a ∧ (next a).result = .ok b := by
  rw [result_bind] at h
  exact bind_eq_ok_iff.mp h

/-- A reading that goes on is granted if its parts are. -/
theorem granted_bind {r : Reading α} {next : α → Reading β} (h : r.result.Granted)
    (hnext : ∀ a, r.result = .ok a → (next a).result.Granted) : (r >>= next).result.Granted := by
  rw [Outcome.Granted, result_bind]
  exact h.bind hnext

/-- Steps over two lists are steps over the first, and then over the second. -/
theorem result_foldlM_append (step : β → α → Reading β) (first second : List α) (b : β) :
    ((first ++ second).foldlM step b).result
      = (first.foldlM step b).result >>= fun mid => (second.foldlM step mid).result := by
  induction first generalizing b with
  | nil => rfl
  | cons x first ih =>
      rw [List.cons_append, List.foldlM_cons, List.foldlM_cons, result_bind, result_bind,
        bind_assoc]
      exact congrArg _ (funext fun b' => ih b')

theorem result_ofResult_bind (x : Outcome QueryError α) (f : α → β) :
    (ofResult x >>= fun a => pure (f a)).result = x.map f := by
  cases x <;> rfl

/-- Readings give results when all of them do. -/
theorem result_all_eq_ok_iff {items : List β} {read : β → Reading α} {as : List α} :
    (all (items.map read)).result = .ok as ↔
      items.Forall₂ (fun x a => (read x).result = .ok a) as := by
  induction items generalizing as with
  | nil =>
      constructor
      · intro h
        rw [← Except.ok.inj h]
        exact .nil
      · rintro ⟨⟩
        rfl
  | cons x items ih =>
      rw [List.map_cons, all]
      constructor
      · intro h
        split at h
        · exact nomatch h
        · exact nomatch h
        · exact nomatch h
        · exact nomatch h
        · rename_i a as' scans ha has
          rw [← Except.ok.inj h]
          exact .cons ha (ih.mp (congrArg Reading.result has))
      · rintro (_ | ⟨hx, hrest⟩)
        have hall := ih.mpr hrest
        rw [hx]
        split
        all_goals simp_all

/-- If all readings have results, each of them has one. -/
theorem exists_ok_of_all {items : List β} {read : β → Reading α} {as : List α}
    (h : (all (items.map read)).result = .ok as) : ∀ x ∈ items, ∃ a, (read x).result = .ok a := by
  have hall := (result_all_eq_ok_iff.mp h).imp (S := fun x a =>
    (∃ a, (read x).result = .ok a) ∧ (read x).result = .ok a) fun x a ha => ⟨⟨a, ha⟩, ha⟩
  exact (List.forall₂_and_left _ _ |>.mp hall).1

/-- Readings are granted if all of them are. -/
theorem granted_all {items : List β} {read : β → Reading α}
    (h : ∀ x ∈ items, (read x).result.Granted) : (all (items.map read)).result.Granted := by
  induction items with
  | nil => exact Outcome.granted_ok []
  | cons x items ih =>
      obtain ⟨hx, hrest⟩ := List.forall_mem_cons.mp h
      have hall := ih hrest
      rw [List.map_cons, all]
      split
      · exact Outcome.granted_panicked
      · exact Outcome.granted_panicked
      · rename_i hrefused _
        exact absurd hrefused (hx _)
      · rename_i hfailed
        rw [hfailed] at hall
        exact hall
      · exact Outcome.granted_ok _

/-- Readings that are all refused are refused together. -/
theorem exists_refused_all {items : List β} {read : β → Reading α} (hne : items ≠ [])
    (h : ∀ x ∈ items, ∃ e, (read x).result = .error (.refused e)) :
    ∃ e, (all (items.map read)).result = .error (.refused e) := by
  induction items with
  | nil => exact absurd rfl hne
  | cons x items ih =>
      obtain ⟨⟨e, hx⟩, hrest⟩ := List.forall_mem_cons.mp h
      rw [List.map_cons, all, hx]
      cases items with
      | nil => exact ⟨e, rfl⟩
      | cons y items =>
          obtain ⟨e', hall⟩ := ih (List.cons_ne_nil _ _) hrest
          split
          all_goals simp_all

end Reading

-- ── Opening a scan ──────────────────────────────────────────────────────────

/-- The scan of a whole table. -/
def Scan.whole (table : String) (t : StoredTable) : Scan :=
  ⟨table, t, none, [], .ascending⟩

namespace Store

variable {s : Store} {table : String}

/-- A scan is opened on a table that is there. -/
theorem scan_eq_ok_iff {q : Scan} : s.scan table = .ok q ↔
    ∃ t, s.tables.get? table = some t ∧ q = .whole table t := by
  rw [scan]
  cases s.tables.get? table with
  | none =>
      constructor
      · intro h
        cases h
      · rintro ⟨t, ht, -⟩
        cases ht
  | some t =>
      constructor
      · intro h
        exact ⟨t, rfl, (Except.ok.inj h).symm⟩
      · rintro ⟨_, ht, rfl⟩
        rw [Option.some.inj ht]
        rfl

-- ── The schema of a store ───────────────────────────────────────────────────

/-- The schema of a store has the fields of its indexes. -/
theorem indexFields?_schema (index : String) :
    s.schema.indexFields? table index
      = (s.tables.get? table).bind fun t => t.indexes.get? index := by
  rw [Schema.indexFields?, schema, Keyed.get?_map]
  cases s.tables.get? table <;> rfl

theorem indexFields?_schema_eq_some {index : String} {fields : List String} :
    s.schema.indexFields? table index = some fields ↔
      ∃ t, s.tables.get? table = some t ∧ t.indexes.get? index = some fields := by
  rw [indexFields?_schema, Option.bind_eq_some_iff]

/-- The schema of a store has the tables of the store. -/
theorem hasTable_schema : s.schema.hasTable table = true ↔
    ∃ t, s.tables.get? table = some t := by
  rw [Schema.hasTable, schema, Keyed.contains, Keyed.get?_map, Option.isSome_map,
    Option.isSome_iff_exists]

-- ── Fetching ────────────────────────────────────────────────────────────────

variable {t : StoredTable} {direction : Option Direction} {count : Option Nat}

theorem result_openScan (ht : s.tables.get? table = some t) :
    (s.openScan table).result = .ok (.whole table t) := by
  rw [openScan, scan, ht]
  rfl

/-- A table that is not there is not read. -/
theorem fetch_missing (ht : s.tables.get? table = none) (access : AccessPath) :
    (s.fetch table access direction count).result
      = .error (.refused (.ofStore (.tableNotFound table))) := by
  have hopen : (s.openScan table).result
      = .error (.refused (.ofStore (.tableNotFound table))) := by
    rw [openScan, scan, ht]
  rw [fetch, Reading.result_bind_error hopen]

/-- What a fetch returns is said by the narrowed scan: its rows, turned around and cut. -/
theorem fetch_eq (ht : s.tables.get? table = some t) (access : AccessPath)
    (direction : Option Direction) (count : Option Nat) :
    (s.fetch table access direction count).result
      = Outcome.ofChecked ((narrow access (.whole table t)).mapError .ofStore) >>= fun q =>
          .ofSort ((match direction with
            | some d => q.directed d
            | none => q).take count) := by
  rw [fetch, Reading.result_bind_ok (result_openScan ht), Reading.result_bind]
  rfl

/-- A scan that can be narrowed is read. -/
theorem fetch_of_narrow {access : AccessPath} {q : Scan} (ht : s.tables.get? table = some t)
    (h : narrow access (.whole table t) = .ok q) :
    (s.fetch table access direction count).result = .ofSort ((match direction with
      | some d => q.directed d
      | none => q).take count) := by
  rw [fetch_eq ht, h]
  rfl

/-- The store has the table, and the index and the fields that the access path asks for. -/
def Opens (s : Store) (table : String) (access : AccessPath) : Prop :=
  ∃ q q', s.scan table = .ok q ∧ narrow access q = .ok q'

/-- A path is opened on a table that is there. -/
theorem exists_of_opens {access : AccessPath} (h : s.Opens table access) :
    ∃ t, s.tables.get? table = some t := by
  obtain ⟨q, -, hscan, -⟩ := h
  obtain ⟨t, ht, -⟩ := scan_eq_ok_iff.mp hscan
  exact ⟨t, ht⟩

/-- A fetch is granted just when the store opens its access path. -/
theorem granted_fetch_iff {access : AccessPath} :
    (s.fetch table access direction count).result.Granted ↔ s.Opens table access := by
  cases ht : s.tables.get? table with
  | none =>
      rw [fetch_missing ht]
      refine iff_of_false (Outcome.not_granted_refused _) fun hopens => ?_
      obtain ⟨t, ht'⟩ := exists_of_opens hopens
      exact nomatch ht.symm.trans ht'
  | some t =>
      have hscan : s.scan table = .ok (.whole table t) := scan_eq_ok_iff.mpr ⟨t, ht, rfl⟩
      cases hnarrow : narrow access (.whole table t) with
      | error e =>
          have hrefused : (s.fetch table access direction count).result
              = .error (.refused (.ofStore e)) := by
            rw [fetch_eq ht, hnarrow]
            rfl
          rw [hrefused]
          refine iff_of_false (Outcome.not_granted_refused _) ?_
          rintro ⟨q, q', hq, hq'⟩
          obtain rfl := Except.ok.inj (hscan.symm.trans hq)
          exact nomatch hnarrow.symm.trans hq'
      | ok q =>
          rw [fetch_of_narrow ht hnarrow]
          exact iff_of_true (Outcome.granted_ofSort _) ⟨_, q, hscan, hnarrow⟩

/-- What gives rows was opened. -/
theorem opens_of_fetch {access : AccessPath} {rows : List Row}
    (h : (s.fetch table access direction count).result = .ok rows) : s.Opens table access :=
  granted_fetch_iff.mp (h ▸ Outcome.granted_ok rows)

theorem opens_fullScan (ht : s.tables.get? table = some t) (filter : Option Filter) :
    s.Opens table (.fullScan filter) :=
  ⟨_, _, scan_eq_ok_iff.mpr ⟨t, ht, rfl⟩, rfl⟩

/-- A full scan returns the rows that pass its filter. -/
theorem fetch_fullScan (ht : s.tables.get? table = some t) (filter : Option Filter) :
    (s.fetch table (.fullScan filter) direction count).result = .ofSort
      ((⟨table, t, none, filter.toList, direction.getD .ascending⟩ : Scan).take count) := by
  have hnarrow : narrow (.fullScan filter) (.whole table t)
      = .ok ⟨table, t, none, filter.toList, .ascending⟩ := by
    cases filter <;> rfl
  rw [fetch_of_narrow ht hnarrow]
  cases direction <;> rfl

/-- Every bound is on a field of the index. -/
theorem through_eq_ok {q : Scan} {index : String} {fields : List String} {range : IndexRange}
    (hindex : q.source.indexes.get? index = some fields)
    (hrange : ∀ b ∈ range, b.field ∈ fields) :
    q.through index range = .ok { q with index := some ⟨fields, range⟩ } := by
  have hfind : (range.find? fun b => !fields.contains b.field) = none := by
    rw [List.find?_eq_none]
    intro b hb
    simp [hrange b hb]
  rw [Scan.through, hindex]
  simp only [hfind]

/-- A read through an index returns the rows within its range that pass its filter. -/
theorem fetch_index (ht : s.tables.get? table = some t) {index : String}
    {fields : List String} (hindex : t.indexes.get? index = some fields) {range : IndexRange}
    (hrange : ∀ b ∈ range, b.field ∈ fields) (planned : List String) (residual : Option Filter) :
    (s.fetch table (.index index planned range residual) direction count).result = .ofSort
      ((⟨table, t, some ⟨fields, range⟩, residual.toList,
        direction.getD .ascending⟩ : Scan).take count) := by
  have hthrough : (Scan.whole table t).through index range
      = .ok ⟨table, t, some ⟨fields, range⟩, [], .ascending⟩ := through_eq_ok hindex hrange
  have hnarrow : narrow (.index index planned range residual) (.whole table t)
      = .ok ⟨table, t, some ⟨fields, range⟩, residual.toList, .ascending⟩ := by
    rw [narrow, hthrough]
    cases residual <;> rfl
  rw [fetch_of_narrow ht hnarrow]
  cases direction <;> rfl

/-- A scan goes through an index just when the index is there with fields for all bounds. -/
theorem through_isOk_iff {q : Scan} {index : String} {range : IndexRange} :
    (∃ q', q.through index range = .ok q') ↔
      ∃ fields, q.source.indexes.get? index = some fields ∧ ∀ b ∈ range, b.field ∈ fields := by
  constructor
  · rintro ⟨q', h⟩
    rw [Scan.through] at h
    cases hget : q.source.indexes.get? index with
    | none =>
        rw [hget] at h
        exact nomatch h
    | some fields =>
        rw [hget] at h
        dsimp only at h
        split at h
        · exact nomatch h
        · rename_i hfind
          refine ⟨fields, rfl, ?_⟩
          intro b hb
          simpa using List.find?_eq_none.mp hfind b hb
  · rintro ⟨fields, hget, hrange⟩
    exact ⟨_, through_eq_ok hget hrange⟩

/-- A read through an index is served by a store with that index and fields for all bounds,
    whatever fields it was planned with. -/
theorem opens_index_iff {index : String} {planned : List String} {range : IndexRange}
    {residual : Option Filter} : s.Opens table (.index index planned range residual) ↔
      ∃ t fields, s.tables.get? table = some t ∧ t.indexes.get? index = some fields ∧
        ∀ b ∈ range, b.field ∈ fields := by
  constructor
  · rintro ⟨q, q', hscan, hnarrow⟩
    obtain ⟨t, ht, rfl⟩ := scan_eq_ok_iff.mp hscan
    rw [narrow] at hnarrow
    cases hthrough : (Scan.whole table t).through index range with
    | error e =>
        rw [hthrough] at hnarrow
        exact nomatch hnarrow
    | ok q'' =>
        obtain ⟨fields, hget, hrange⟩ := through_isOk_iff.mp ⟨q'', hthrough⟩
        exact ⟨t, fields, ht, hget, hrange⟩
  · rintro ⟨t, fields, ht, hget, hrange⟩
    have hgranted :
        (s.fetch table (.index index planned range residual) none none).result.Granted := by
      rw [fetch_index ht hget hrange]
      exact Outcome.granted_ofSort _
    exact granted_fetch_iff.mp hgranted

/-- The scan for a look-up of one key. -/
def keyScan (table : String) (t : StoredTable) (fields : List String) (field : String)
    (filter : Option Filter) (key : Value) : Scan :=
  ⟨table, t, some ⟨fields, IndexRange.single field key⟩, filter.toList, .ascending⟩

/-- A look-up of one key returns the rows that have it and pass the filter. -/
theorem fetchKey_eq (ht : s.tables.get? table = some t) {index field : String}
    {fields : List String} (hindex : t.indexes.get? index = some fields) (hfield : field ∈ fields)
    (filter : Option Filter) (key : Value) :
    (s.fetchKey table index field filter key).result
      = .ofSort (keyScan table t fields field filter key).rows := by
  have hrange : ∀ b ∈ IndexRange.single field key, b.field ∈ fields := by
    intro b hb
    rw [List.mem_singleton.mp hb]
    exact hfield
  have hthrough : (Scan.whole table t).through index (IndexRange.single field key)
      = .ok ⟨table, t, some ⟨fields, IndexRange.single field key⟩, [], .ascending⟩ :=
    through_eq_ok hindex hrange
  rw [fetchKey, Reading.result_bind_ok (result_openScan ht), Reading.result_bind, hthrough]
  cases filter <;> rfl

/-- A look-up is refused where no index has the field. -/
theorem fetchKey_refused {index field : String}
    (h : ¬ ∃ t fields, s.tables.get? table = some t ∧ t.indexes.get? index = some fields ∧
      field ∈ fields) (filter : Option Filter) (key : Value) :
    ∃ e, (s.fetchKey table index field filter key).result = .error (.refused e) := by
  cases ht : s.tables.get? table with
  | none =>
      have hopen : (s.openScan table).result
          = .error (.refused (.ofStore (.tableNotFound table))) := by
        rw [openScan, scan, ht]
      exact ⟨_, by rw [fetchKey, Reading.result_bind_error hopen]⟩
  | some t =>
      have hthrough : ∃ e, (Scan.whole table t).through index (IndexRange.single field key)
          = .error e := by
        cases hthrough : (Scan.whole table t).through index (IndexRange.single field key) with
        | error e => exact ⟨e, rfl⟩
        | ok q =>
            obtain ⟨fields, hget, hrange⟩ := through_isOk_iff.mp ⟨q, hthrough⟩
            exact absurd ⟨t, fields, ht, hget, hrange _ List.mem_cons_self⟩ h
      obtain ⟨e, he⟩ := hthrough
      rw [fetchKey, Reading.result_bind_ok (result_openScan ht), Reading.result_bind, he]
      exact ⟨_, rfl⟩

/-- A look-up is granted just when the table has the index and the index has the field. -/
theorem granted_fetchKey_iff {index field : String} {filter : Option Filter} {key : Value} :
    (s.fetchKey table index field filter key).result.Granted ↔
      ∃ t fields, s.tables.get? table = some t ∧ t.indexes.get? index = some fields ∧
        field ∈ fields := by
  constructor
  · intro h
    by_contra hindex
    obtain ⟨e, he⟩ := fetchKey_refused hindex filter key
    exact h e he
  · rintro ⟨t, fields, ht, hget, hfield⟩
    rw [fetchKey_eq ht hget hfield]
    exact Outcome.granted_ofSort _

end Store

-- ── Rows of a scan ──────────────────────────────────────────────────────────

namespace Scan

variable {q : Scan} {rows : List Row}

/-- Without an index rows come in the order of creation or its reverse, and no sort panics. -/
theorem rows_of_unindexed (h : q.index = none) :
    q.rows = some (match q.direction with
      | .ascending => q.source.rows.filter q.admits
      | .descending => (q.source.rows.filter q.admits).reverse) := by
  rw [Scan.rows, h]
  cases q.direction <;> rfl

/-- The rows of a scan, if the sort does not panic, are the admitted ones, in some order. -/
theorem rows_perm (h : q.rows = some rows) : rows.Perm (q.source.rows.filter q.admits) := by
  cases hindex : q.index with
  | some i =>
      rw [Scan.rows, hindex] at h
      exact Sorting.stableSort_perm h
  | none =>
      rw [rows_of_unindexed hindex] at h
      rw [← Option.some.inj h]
      cases q.direction with
      | ascending => exact List.Perm.refl _
      | descending => exact List.reverse_perm _

/-- Up to twenty rows come in some order whatever the index is. -/
theorem isSome_rows_of_length_le (h : (q.source.rows.filter q.admits).length ≤ 20) :
    q.rows.isSome = true := by
  cases hindex : q.index with
  | some i =>
      rw [Scan.rows, hindex]
      exact Sorting.isSome_stableSort_of_length_le h
  | none =>
      rw [rows_of_unindexed hindex]
      rfl

@[simp] theorem take_none (q : Scan) : q.take none = q.rows :=
  rfl

/-- To take rows is to have them all and to cut off the first ones. -/
theorem take_eq_some_iff {count : Option Nat} : q.take count = some rows ↔
    ∃ all, q.rows = some all ∧ rows = match count with
      | none => all
      | some n => all.take n := by
  cases count with
  | none => exact ⟨fun h => ⟨rows, h, rfl⟩, fun ⟨all, h, heq⟩ => heq ▸ h⟩
  | some n =>
      rw [take, Option.map_eq_some_iff]
      exact exists_congr fun all => and_congr_right fun _ => eq_comm

theorem all_holds_toList (filter : Option Filter) (row : Row) :
    filter.toList.all (·.holds row) = filter.all (·.holds row) := by
  cases filter with
  | none => rfl
  | some f => exact Bool.and_true _

end Scan

namespace Store

variable {s : Store} {table : String} {direction : Option Direction} {count : Option Nat}

/-- A look-up admits the rows whose field equals the key. -/
theorem admits_keyScan (t : StoredTable) (fields : List String) (field : String)
    (filter : Option Filter) (key : Value) (row : Row) :
    (keyScan table t fields field filter key).admits row
      = ((row.value field).equal key && filter.all (·.holds row)) := by
  rw [Scan.admits, ← Scan.all_holds_toList]
  exact congrArg (· && _) (IndexRange.holds_single _ _)

/-- Look-ups of equal keys find the same rows. -/
theorem rows_keyScan_congr {t : StoredTable} {fields : List String} {field : String}
    {filter : Option Filter} {u v : Value} (h : u.equal v = true) :
    (keyScan table t fields field filter u).rows =
      (keyScan table t fields field filter v).rows := by
  have hadmits : (keyScan table t fields field filter u).admits
      = (keyScan table t fields field filter v).admits := by
    funext row
    rw [admits_keyScan, admits_keyScan]
    refine congrArg (· && _) (Bool.eq_iff_iff.mpr ⟨?_, ?_⟩)
    · exact fun hu => Value.equal_trans hu h
    · exact fun hv => Value.equal_trans hv (Value.equal_symm h)
  rw [Scan.rows, Scan.rows, hadmits]
  rfl

/-- Narrowing a scan leaves its table. -/
theorem source_of_narrow {access : AccessPath} {q q' : Scan} (h : narrow access q = .ok q') :
    q'.source = q.source := by
  have hfiltered : ∀ (q : Scan) (filter : Option Filter), (q.filteredBy filter).source = q.source :=
    fun q filter => by cases filter <;> rfl
  cases access with
  | fullScan filter =>
      rw [← Except.ok.inj h]
      exact hfiltered q filter
  | index index planned range residual =>
      rw [narrow] at h
      cases hthrough : q.through index range with
      | error e =>
          rw [hthrough] at h
          exact nomatch h
      | ok q'' =>
          rw [hthrough] at h
          obtain rfl := Except.ok.inj h
          rw [hfiltered]
          rw [Scan.through] at hthrough
          split at hthrough
          · exact nomatch hthrough
          · split at hthrough
            · exact nomatch hthrough
            · rw [← Except.ok.inj hthrough]

/-- A fetch returns rows of the table. -/
theorem mem_of_fetch {access : AccessPath} {rows : List Row}
    (h : (s.fetch table access direction count).result = .ok rows) {row : Row}
    (hrow : row ∈ rows) : ∃ t, s.tables.get? table = some t ∧ row ∈ t.rows := by
  obtain ⟨q, q', hscan, hnarrow⟩ := opens_of_fetch h
  obtain ⟨t, ht, rfl⟩ := scan_eq_ok_iff.mp hscan
  rw [fetch_of_narrow ht hnarrow, Outcome.ofSort_eq_ok_iff, Scan.take_eq_some_iff] at h
  obtain ⟨all, hall, rfl⟩ := h
  have hmem : row ∈ all := by
    cases count with
    | none => exact hrow
    | some n => exact List.mem_of_mem_take hrow
  have hsource : q'.source = t := source_of_narrow hnarrow
  have hrows := List.mem_of_mem_filter ((Scan.rows_perm hall).mem_iff.mp hmem)
  refine ⟨t, ht, ?_⟩
  cases direction with
  | none => exact hsource ▸ hrows
  | some d => exact hsource ▸ hrows

end Store

end DocQuery
