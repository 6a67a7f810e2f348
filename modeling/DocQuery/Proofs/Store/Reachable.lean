import DocQuery.Proofs.Except
import DocQuery.Proofs.Row
import DocQuery.Proofs.Value.Key
import DocQuery.Store.Basic

/-!
# Reachable stores — what insertions keep

A store is reachable if creating tables, inserting documents and defining indexes leads to
it from the empty store, calls that fail included. One induction over those steps serves
every invariant of single rows (`Reachable.rows`) and the one of creation times
(`Reachable.creationTimes`).

* `Reachable.keyable` — with JSON documents, keys tell the stored values apart, but for null;
* `Reachable.key_value_eq_iff` — within one field of a table they do so without exception;
* `Reachable.plain` — without points in the documents' names there is none in a row's;
* `Reachable.creationTimes` — each table's creation times are increasing ticks.
-/

namespace DocQuery

-- ── Documents that may be inserted ──────────────────────────────────────────

/-- What a JSON text can hold: integers fit sixty-four bits, with a sign or without, and
    the other numbers are finite. -/
inductive Document.IsJson : Document → Prop where
  | null : IsJson .null
  | boolean (b : Bool) : IsJson (.boolean b)
  | integer {n : Int} : -2 ^ 63 ≤ n → n < 2 ^ 64 → IsJson (.integer n)
  | decimal {x : Number} : x.isFinite = true → IsJson (.decimal x)
  | text (s : String) : IsJson (.text s)
  | list {items : List Document} : (∀ d ∈ items, IsJson d) → IsJson (.list items)
  | object {fields : List (String × Document)} :
      (∀ f ∈ fields, IsJson f.2) → IsJson (.object fields)

/-- No field of the document itself has a point in its name. -/
def Document.HasPlainFields : Document → Prop
  | .object fields => ∀ f ∈ fields, Plain f.1
  | _ => True

namespace Store

/-- The stores that are reached from the empty one by inserting admitted documents. -/
inductive Reachable (admits : Document → Prop) : Store → Prop where
  | empty : Reachable admits .empty
  | createTable {s : Store} (table : String) :
      Reachable admits s → Reachable admits (s.createTable table)
  | insert {s : Store} {doc : Document} (table : String) :
      Reachable admits s → admits doc → Reachable admits (s.insert table doc).2
  | defineIndex {s s' : Store} {table index : String} {fields : List String} :
      Reachable admits s → s.defineIndex table index fields = .ok s' → Reachable admits s'

variable {s s' : Store} {admits : Document → Prop}

/-- Insertions lead from a reachable store to a reachable store. -/
theorem Reachable.insertAll {docs : List Document} (table : String) (h : Reachable admits s)
    (hdocs : ∀ d ∈ docs, admits d) : Reachable admits (s.insertAll table docs) := by
  induction docs generalizing s with
  | nil => exact h
  | cons d ds ih =>
      exact ih (h.insert table (hdocs d List.mem_cons_self))
        fun d' hd' => hdocs d' (List.mem_cons_of_mem _ hd')

theorem Reachable.addTable {docs : List Document} (table : String) (h : Reachable admits s)
    (hdocs : ∀ d ∈ docs, admits d) : Reachable admits (s.addTable table docs) :=
  (h.createTable table).insertAll table hdocs

/-- More documents reach more stores. -/
theorem Reachable.mono {admits' : Document → Prop} (hadm : ∀ d, admits d → admits' d)
    (h : Reachable admits s) : Reachable admits' s := by
  induction h with
  | empty => exact .empty
  | createTable table _ ih => exact ih.createTable table
  | insert table _ hd ih => exact ih.insert table (hadm _ hd)
  | defineIndex _ heq ih => exact ih.defineIndex heq

-- ── What one step does to a table ───────────────────────────────────────────

/-- A table that is there after a creation was there before, or is empty. -/
theorem get?_createTable {table name : String} {t : StoredTable}
    (h : (s.createTable table).tables.get? name = some t) :
    s.tables.get? name = some t ∨ t = .empty := by
  rw [createTable, Keyed.get?_alter] at h
  split at h
  · rename_i heq
    subst heq
    cases hs : s.tables.get? table with
    | none =>
        rw [hs] at h
        exact Or.inr (Option.some.inj h).symm
    | some t' =>
        rw [hs] at h
        exact Or.inl h
  · exact Or.inl h

/-- An insertion adds a stamped row to one table, or nothing. -/
theorem get?_insert {table name : String} {doc : Document} {t : StoredTable}
    (h : (s.insert table doc).2.tables.get? name = some t) :
    s.tables.get? name = some t ∨ ∃ t' id, s.tables.get? name = some t' ∧
      t.rows = t'.rows ++ [stamp id (s.clock + 1) (Row.ofDocument doc)] := by
  rw [insert] at h
  cases hs : s.tables.get? table with
  | none =>
      rw [hs] at h
      exact Or.inl h
  | some t' =>
      simp only [hs, Keyed.get?_insert] at h
      split at h
      · rename_i heq
        subst heq
        exact Or.inr ⟨t', _, hs, by rw [← Option.some.inj h]⟩
      · exact Or.inl h

theorem clock_insert (table : String) (doc : Document) :
    (s.insert table doc).2.clock = s.clock + 1 := by
  rw [insert]
  cases s.tables.get? table <;> rfl

/-- Defining an index leaves the rows and the clock. -/
theorem get?_defineIndex {table index name : String} {fields : List String} {t : StoredTable}
    (heq : s.defineIndex table index fields = .ok s') (h : s'.tables.get? name = some t) :
    s'.clock = s.clock ∧ ∃ t', s.tables.get? name = some t' ∧ t.rows = t'.rows := by
  rw [defineIndex] at heq
  cases hs : s.tables.get? table with
  | none =>
      rw [hs] at heq
      exact nomatch heq
  | some t' =>
      rw [hs] at heq
      have hs' := Except.ok.inj heq
      subst hs'
      refine ⟨rfl, ?_⟩
      simp only [Keyed.get?_insert] at h
      split at h
      · rename_i hname
        subst hname
        exact ⟨t', hs, by rw [← Option.some.inj h]⟩
      · exact ⟨t, h, rfl⟩

-- ── Invariants of rows ──────────────────────────────────────────────────────

/-- What is true of every stamped row is true of every stored row. -/
theorem Reachable.rows {P : Row → Prop} (h : Reachable admits s)
    (hstamp : ∀ id tick doc, admits doc → P (stamp id tick (Row.ofDocument doc)))
    {table : String} {t : StoredTable} (ht : s.tables.get? table = some t) :
    ∀ row ∈ t.rows, P row := by
  induction h generalizing table t with
  | empty => exact nomatch ht
  | createTable name _ ih =>
      rcases get?_createTable ht with hs | rfl
      · exact ih hs
      · intro row hrow
        exact nomatch hrow
  | insert name _ hadm ih =>
      rcases get?_insert ht with hs | ⟨t', id, hs, hrows⟩
      · exact ih hs
      · intro row hrow
        rw [hrows, List.mem_append, List.mem_singleton] at hrow
        rcases hrow with hrow | rfl
        · exact ih hs row hrow
        · exact hstamp _ _ _ hadm
  | defineIndex _ heq ih =>
      obtain ⟨-, t', hs, hrows⟩ := get?_defineIndex heq ht
      rw [hrows]
      exact ih hs

/-- A stored row has its time and its id, and the fields of its document otherwise. -/
theorem get?_stamp (id : String) (tick : Nat) (row : Row) (name : String) :
    (stamp id tick row).get? name
      = if creationTimeField = name then some (.number (.ofNat tick))
        else if idField = name then some (.text id) else row.get? name := by
  rw [stamp, Keyed.get?_insert, Keyed.get?_insert]

/-- What is true of a row's fields and of those that a store adds is true of the stamped
    row's. -/
theorem forall_stamp {P : String → Value → Prop} {id : String} {tick : Nat} {row : Row}
    (hid : P idField (.text id)) (htime : P creationTimeField (.number (.ofNat tick)))
    (hrow : ∀ name v, row.get? name = some v → P name v) :
    ∀ name v, (stamp id tick row).get? name = some v → P name v := by
  intro name v h
  rw [get?_stamp] at h
  split at h
  · rename_i heq
    rw [← heq, ← Option.some.inj h]
    exact htime
  · split at h
    · rename_i heq
      rw [← heq, ← Option.some.inj h]
      exact hid
    · exact hrow name v h

end Store

/-- What is true of a document's fields is true of its row's. -/
theorem Row.forall_ofDocument {P : String → Value → Prop} {d : Document}
    (h : ∀ fields, d = .object fields → ∀ f ∈ fields, P f.1 (Value.ofDocument f.2)) :
    ∀ name v, (Row.ofDocument d).get? name = some v → P name v := by
  intro name v hv
  cases d with
  | object fields =>
      rw [Row.ofDocument, Keyed.get?_ofList] at hv
      have hmem := List.mem_reverse.mp (Keyed.mem_of_findEntry hv)
      obtain ⟨f, hf, heq⟩ := List.mem_map.mp hmem
      obtain ⟨rfl, rfl⟩ := Prod.mk.inj heq
      exact h fields rfl f hf
  | null | boolean _ | integer _ | decimal _ | text _ | list _ => exact nomatch hv

-- ── Values ──────────────────────────────────────────────────────────────────

/-- Keys tell the values of the row apart. -/
def Row.Keyable (row : Row) : Prop :=
  ∀ name v, row.get? name = some v → v.Keyable

/-- The values of such a row are finite. -/
theorem Row.Keyable.value {row : Row} (h : row.Keyable) (name : String) :
    (row.value name).Keyable := by
  rw [Row.value]
  cases hv : row.get? name with
  | none => exact .of_ne_number rfl
  | some v => exact h name v hv

/-- The values of a row stay keyable under qualified names. -/
theorem Row.Keyable.qualified {row : Row} (h : row.Keyable) (t : String) :
    (row.qualified t).Keyable := by
  intro key v hv
  obtain ⟨f, -, hf⟩ := eq_qualify_of_get?_qualified hv
  exact h f v hf

/-- Two keyable rows merge to a keyable row. -/
theorem Row.Keyable.merge {left right : Row} (hl : left.Keyable) (hr : right.Keyable) :
    (left.merge right).Keyable := by
  intro key v hv
  rw [get?_merge, Option.or_eq_some_iff] at hv
  rcases hv with hv | ⟨-, hv⟩
  · exact hr key v hv
  · exact hl key v hv

/-- A natural number is finite or rounds to infinity. -/
theorem Value.keyable_ofNat (n : Nat) : (Value.number (.ofNat n)).Keyable := by
  rintro x ⟨⟩
  exact Number.isFinite_or_eq_infinity _ _

/-- A JSON document has finite numbers only, by recursion over it. -/
theorem Value.isFinite_ofDocument {d : Document} (h : d.IsJson) :
    (Value.ofDocument d).IsFinite := by
  cases h with
  | integer hlow hup =>
      rintro x ⟨⟩
      exact Number.isFinite_ofInt (by omega)
  | decimal hx =>
      rintro x ⟨⟩
      exact hx
  | null | boolean _ | text _ | list _ | object _ =>
      intro x hx
      exact nomatch hx

theorem Value.keyable_ofDocument {d : Document} (h : d.IsJson) :
    (Value.ofDocument d).Keyable :=
  fun x hx => Or.inl (isFinite_ofDocument h x hx)

/-- With JSON documents, keys tell the stored values apart. -/
theorem Store.Reachable.keyable {s : Store} (h : Reachable Document.IsJson s) {table : String}
    {t : StoredTable} (ht : s.tables.get? table = some t) : ∀ row ∈ t.rows, row.Keyable := by
  refine h.rows ?_ ht
  intro id tick doc hdoc
  refine forall_stamp (P := fun _ v => v.Keyable) (.of_ne_number rfl) (Value.keyable_ofNat _) ?_
  refine Row.forall_ofDocument ?_
  rintro fields rfl f hf
  cases hdoc with
  | object hfields => exact Value.keyable_ofDocument (hfields f hf)

/-- With JSON documents the creation times of stored rows are ticks, and all other fields are
    finite. -/
theorem Store.Reachable.value_cases {s : Store} (h : Reachable Document.IsJson s)
    {table : String} {t : StoredTable} (ht : s.tables.get? table = some t) : ∀ row ∈ t.rows,
    (∃ n, row.value creationTimeField = .number (.ofNat n)) ∧
      ∀ name, name ≠ creationTimeField → (row.value name).IsFinite := by
  refine h.rows ?_ ht
  intro id tick doc hdoc
  constructor
  · refine ⟨tick, ?_⟩
    rw [Row.value, get?_stamp, if_pos rfl]
    rfl
  · intro name hname
    have hfields : ∀ name v, (stamp id tick (Row.ofDocument doc)).get? name = some v →
        name ≠ creationTimeField → v.IsFinite := by
      refine forall_stamp (P := fun name v => name ≠ creationTimeField → v.IsFinite)
        ?_ (fun hne => absurd rfl hne) (Row.forall_ofDocument ?_)
      · intro _ x hx
        cases hx
      · rintro fields rfl f hf -
        cases hdoc with
        | object hjson => exact Value.isFinite_ofDocument (hjson f hf)
    rw [Row.value]
    cases hv : (stamp id tick (Row.ofDocument doc)).get? name with
    | none =>
        intro x hx
        cases hx
    | some v => exact hfields name v hv hname

/-- Within one field of a table keys tell the values apart, null among them. -/
theorem Store.Reachable.key_value_eq_iff {s : Store} (h : Reachable Document.IsJson s)
    {table : String} {t : StoredTable} (ht : s.tables.get? table = some t) {a b : Row}
    (ha : a ∈ t.rows) (hb : b ∈ t.rows) (name : String) :
    (a.value name).key = (b.value name).key ↔ (a.value name).equal (b.value name) = true := by
  obtain ⟨⟨m, hm⟩, hfa⟩ := h.value_cases ht a ha
  obtain ⟨⟨n, hn⟩, hfb⟩ := h.value_cases ht b hb
  by_cases hname : name = creationTimeField
  · rw [hname, hm, hn]
    exact Value.key_eq_iff_of_keyable (Value.keyable_ofNat m) (Value.keyable_ofNat n) rfl rfl
  · exact Value.key_eq_iff (hfa name hname) (hfb name hname)

-- ── Names ───────────────────────────────────────────────────────────────────

/-- No name in the row has a point. -/
def Row.HasPlainNames (row : Row) : Prop :=
  ∀ name v, row.get? name = some v → Plain name

/-- A row with plain names has nothing under a qualified name. -/
theorem Row.HasPlainNames.get?_qualify {row : Row} (h : row.HasPlainNames) (table field : String) :
    row.get? (qualify table field) = none := by
  cases hv : row.get? (qualify table field) with
  | none => rfl
  | some v => exact absurd rfl (qualify_ne_of_plain (h _ v hv))

/-- In a row of plain names a field resolves to its value, however it is qualified. -/
theorem Row.HasPlainNames.resolve_eq {row : Row} (h : row.HasPlainNames) (table : Option String)
    (field defaultTable : String) : row.resolve table field defaultTable = row.value field := by
  cases table with
  | none => rw [resolve, resolve?, h.get?_qualify, Option.or_none, value]
  | some t => rw [resolve, resolve?, h.get?_qualify, Option.none_or, value]

/-- Without points in the documents' names there is none in the stored rows'. -/
theorem Store.Reachable.plain {s : Store} (h : Reachable Document.HasPlainFields s)
    {table : String} {t : StoredTable} (ht : s.tables.get? table = some t) :
    ∀ row ∈ t.rows, row.HasPlainNames := by
  refine h.rows ?_ ht
  intro id tick doc hdoc
  refine forall_stamp (P := fun name _ => Plain name) (by decide) (by decide) ?_
  refine Row.forall_ofDocument ?_
  rintro fields rfl f hf
  exact hdoc f hf

-- ── Creation times ──────────────────────────────────────────────────────────

namespace Store

/-- The creation times of the rows are the ticks, which increase up to the clock. -/
structure Ticks (rows : List Row) (clock : Nat) (ticks : List Nat) : Prop where
  times : rows.map (·.value creationTimeField) = ticks.map fun n => .number (.ofNat n)
  sorted : ticks.Pairwise (· < ·)
  le : ∀ n ∈ ticks, n ≤ clock

theorem Ticks.mono {rows : List Row} {clock clock' : Nat} {ticks : List Nat}
    (h : Ticks rows clock ticks) (hle : clock ≤ clock') : Ticks rows clock' ticks :=
  ⟨h.times, h.sorted, fun n hn => (h.le n hn).trans hle⟩

/-- A new row has the next tick. -/
theorem Ticks.push {rows : List Row} {clock : Nat} {ticks : List Nat}
    (h : Ticks rows clock ticks) (id : String) (row : Row) :
    Ticks (rows ++ [stamp id (clock + 1) row]) (clock + 1) (ticks ++ [clock + 1]) := by
  constructor
  · have hvalue : (stamp id (clock + 1) row).value creationTimeField
        = .number (.ofNat (clock + 1)) := by
      rw [Row.value, get?_stamp, if_pos rfl]
      rfl
    rw [List.map_append, List.map_append, h.times, List.map_singleton, List.map_singleton, hvalue]
  · refine List.pairwise_append.mpr ⟨h.sorted, List.pairwise_singleton _ _, ?_⟩
    intro n hn m hm
    rw [List.mem_singleton.mp hm]
    exact Nat.lt_succ_of_le (h.le n hn)
  · intro n hn
    rcases List.mem_append.mp hn with hn | hn
    · exact (h.le n hn).trans (Nat.le_succ _)
    · exact (List.mem_singleton.mp hn).le

/-- Each table's creation times are increasing ticks of the clock. -/
theorem Reachable.creationTimes {s : Store} {admits : Document → Prop} (h : Reachable admits s)
    {table : String} {t : StoredTable} (ht : s.tables.get? table = some t) :
    ∃ ticks, Ticks t.rows s.clock ticks := by
  induction h generalizing table t with
  | empty => exact nomatch ht
  | createTable name _ ih =>
      rcases get?_createTable ht with hs | rfl
      · exact ih hs
      · exact ⟨[], rfl, List.Pairwise.nil, fun n hn => nomatch hn⟩
  | insert name _ _ ih =>
      rw [clock_insert]
      rcases get?_insert ht with hs | ⟨t', id, hs, hrows⟩
      · obtain ⟨ticks, hticks⟩ := ih hs
        exact ⟨ticks, hticks.mono (Nat.le_succ _)⟩
      · obtain ⟨ticks, hticks⟩ := ih hs
        rw [hrows]
        exact ⟨_, hticks.push id _⟩
  | defineIndex _ heq ih =>
      obtain ⟨hclock, t', hs, hrows⟩ := get?_defineIndex heq ht
      rw [hclock, hrows]
      exact ih hs

end Store

-- ── A sample ────────────────────────────────────────────────────────────────

namespace Store

def sampleUsers : List Document :=
  [.object [("name", .text "Ann"), ("age", .integer 31)],
    .object [("name", .text "bob"), ("age", .null)],
    .object [("name", .text "Cid"), ("age", .integer 27)]]

def sampleOrders : List Document :=
  [.object [("user", .text "Ann"), ("total", .integer 5)],
    .object [("user", .text "Cid"), ("total", .integer 1)]]

/-- Users, one of them without an age, and their orders; the users have an index by age. -/
def sample : Store :=
  let filled := (empty.addTable "users" sampleUsers).addTable "orders" sampleOrders
  (filled.defineIndex "users" "by_age" ["age"]).toOption.getD empty

/-- The sample store is made by insertions. -/
theorem reachable_sample : sample.Reachable fun d => d.IsJson ∧ d.HasPlainFields := by
  have hdoc : ∀ fields : List (String × Document), (∀ f ∈ fields, f.2.IsJson ∧ Plain f.1) →
      (Document.object fields).IsJson ∧ (Document.object fields).HasPlainFields :=
    fun fields h => ⟨.object fun f hf => (h f hf).1, fun f hf => (h f hf).2⟩
  have hdocs : ∀ d ∈ sampleUsers ++ sampleOrders, d.IsJson ∧ d.HasPlainFields := by
    simp only [sampleUsers, sampleOrders, List.cons_append, List.nil_append,
      List.forall_mem_cons, List.not_mem_nil, false_implies, implies_true, and_true]
    refine ⟨hdoc _ ?_, hdoc _ ?_, hdoc _ ?_, hdoc _ ?_, hdoc _ ?_⟩ <;>
      simp only [List.forall_mem_cons, List.not_mem_nil, false_implies, implies_true, and_true]
    · exact ⟨⟨.text _, by decide⟩, .integer (by decide) (by decide), by decide⟩
    · exact ⟨⟨.text _, by decide⟩, .null, by decide⟩
    · exact ⟨⟨.text _, by decide⟩, .integer (by decide) (by decide), by decide⟩
    · exact ⟨⟨.text _, by decide⟩, .integer (by decide) (by decide), by decide⟩
    · exact ⟨⟨.text _, by decide⟩, .integer (by decide) (by decide), by decide⟩
  obtain ⟨husers, horders⟩ := List.forall_mem_append.mp hdocs
  have hindex : ((empty.addTable "users" sampleUsers).addTable "orders" sampleOrders).defineIndex
      "users" "by_age" ["age"] = .ok sample := eq_ok_of_toOption (by decide +kernel)
  exact ((Reachable.empty.addTable _ husers).addTable _ horders).defineIndex hindex

def sampleDottedUsers : List Document :=
  [.object [("name", .text "Ann"), ("age", .integer 5), ("users.age", .integer 31)],
    .object [("name", .text "Bob"), ("users.age", .integer 27)],
    .object [("name", .text "Cid"), ("a.b", .integer 1)]]

def sampleDottedUser : List Document :=
  [.object [("owner", .text "Ann"), ("users.name", .text "Cid"), ("", .boolean true)]]

/-- Users with points in the names of some fields, and a table whose name begins that of the
    users', with a field that looks like one of theirs. -/
def sampleDotted : Store :=
  (empty.addTable "users" sampleDottedUsers).addTable "user" sampleDottedUser

/-- The sample with a dot in the name of a field is made by insertions. -/
theorem reachable_sampleDotted : sampleDotted.Reachable Document.IsJson := by
  have hdocs : ∀ d ∈ sampleDottedUsers ++ sampleDottedUser, d.IsJson := by
    simp only [sampleDottedUsers, sampleDottedUser, List.cons_append, List.nil_append,
      List.forall_mem_cons, List.not_mem_nil, false_implies, implies_true, and_true]
    refine ⟨.object ?_, .object ?_, .object ?_, .object ?_⟩ <;>
      simp only [List.forall_mem_cons, List.not_mem_nil, false_implies, implies_true, and_true]
    · exact ⟨.text _, .integer (by decide) (by decide), .integer (by decide) (by decide)⟩
    · exact ⟨.text _, .integer (by decide) (by decide)⟩
    · exact ⟨.text _, .integer (by decide) (by decide)⟩
    · exact ⟨.text _, .text _, .boolean _⟩
  obtain ⟨husers, hother⟩ := List.forall_mem_append.mp hdocs
  exact (Reachable.empty.addTable _ husers).addTable _ hother

end Store

end DocQuery
