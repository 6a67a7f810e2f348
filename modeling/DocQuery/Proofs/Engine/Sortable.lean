import DocQuery.Proofs.Engine.Run
import DocQuery.Proofs.Result.Join
import DocQuery.Proofs.Result.Stable

/-!
# When no sort panics

A sort panics only over more than twenty rows, and only by an order that contradicts itself, which
needs a column that mixes types. A store none of whose indexes has such a column is sortable. Main
statements:

* `Store.Sortable.calm_fetch`, `Store.Sortable.calm_joinRows` — no read of a sortable store panics,
  and no join;
* `Store.Sortable.calm_held` — so the rows of a query are found, or it is refused;
* `isSome_sortRows` — they can be sorted where each key reads one kind;
* `Value.not_transCmp_collate` — numbers and texts together contradict themselves.
-/

namespace DocQuery

-- ── Outcomes without a panic ────────────────────────────────────────────────

namespace Outcome

variable {ε α β : Type} {x : Outcome ε α}

/-- No sort panics. -/
def Calm (x : Outcome ε α) : Prop :=
  x ≠ .error .panicked

theorem calm_ok (a : α) : Calm (.ok a : Outcome ε α) :=
  fun h => nomatch h

theorem calm_refused (e : ε) : Calm (.error (.refused e) : Outcome ε α) :=
  fun h => nomatch h

theorem calm_ofSort {x : Option α} (h : x.isSome = true) : Calm (ofSort x : Outcome ε α) := by
  obtain ⟨a, rfl⟩ := Option.isSome_iff_exists.mp h
  exact calm_ok a

/-- What is refused does not panic, so it is enough to look at what is granted. -/
theorem calm_of_granted (h : x.Granted → x.Calm) : x.Calm := by
  by_cases hgranted : x.Granted
  · exact h hgranted
  · obtain ⟨e, rfl⟩ := exists_refused hgranted
    exact calm_refused e

/-- Steps that do not panic do not panic in turn. -/
theorem Calm.bind {next : α → Outcome ε β} (h : x.Calm)
    (hnext : ∀ a, x = .ok a → (next a).Calm) : Calm (x >>= next) := by
  match x with
  | .ok a => exact hnext a rfl
  | .error .panicked => exact absurd rfl h
  | .error (.refused e) => exact calm_refused e

end Outcome

namespace Reading

variable {α β : Type}

/-- Readings that do not panic do not panic in turn. -/
theorem calm_bind {r : Reading α} {next : α → Reading β} (h : r.result.Calm)
    (hnext : ∀ a, r.result = .ok a → (next a).result.Calm) : (r >>= next).result.Calm := by
  rw [result_bind]
  exact h.bind hnext

/-- Readings of which none panics do not panic together. -/
theorem calm_all {items : List β} {read : β → Reading α}
    (h : ∀ x ∈ items, (read x).result.Calm) : (all (items.map read)).result.Calm := by
  induction items with
  | nil => exact Outcome.calm_ok []
  | cons x items ih =>
      obtain ⟨hx, hrest⟩ := List.forall_mem_cons.mp h
      have hall := ih hrest
      rw [List.map_cons, all]
      split
      · rename_i hpanic
        exact absurd hpanic hx
      · rename_i hpanic
        exact absurd (congrArg Reading.result hpanic) hall
      · exact Outcome.calm_refused _
      · rename_i hfailed
        rw [hfailed] at hall
        exact hall
      · exact Outcome.calm_ok _

end Reading

-- ── Reads of a store ────────────────────────────────────────────────────────

variable {rows : List Row}

/-- The rows of a scan can be read if they can be sorted by its index. -/
theorem Scan.isSome_rows {q : Scan}
    (h : ∀ i, q.index = some i → SortableBy i.fields (q.source.rows.filter q.admits)) :
    q.rows.isSome = true := by
  cases hindex : q.index with
  | none =>
      rw [rows_of_unindexed hindex]
      rfl
  | some i =>
      rw [rows, hindex]
      exact (h i hindex).isSome_stableSort q.direction

/-- To take fewer rows takes no other sort. -/
theorem Scan.isSome_take {q : Scan} (h : q.rows.isSome = true) (count : Option Nat) :
    (q.take count).isSome = true := by
  cases count with
  | none => exact h
  | some n => exact Option.isSome_map.trans h

/-- A full scan does not sort. -/
theorem Store.exists_fetch_fullScan {s : Store} {table : String} {t : StoredTable}
    (ht : s.tables.get? table = some t) (filter : Option Filter) (direction : Option Direction) :
    ∃ rows, (s.fetch table (.fullScan filter) direction none).result = .ok rows := by
  rw [fetch_fullScan ht, Scan.take_none, Scan.rows_of_unindexed rfl]
  exact ⟨_, rfl⟩

/-- Rows that can be sorted are arranged by any access path through their index. -/
theorem AccessPath.isSome_arrange {access : AccessPath}
    (h : ∀ index fields range residual, access = .index index fields range residual →
      SortableBy fields rows)
    (direction : Option Direction) : (access.arrange direction rows).isSome = true := by
  cases access with
  | fullScan filter => rfl
  | index index fields range residual => exact (h _ _ _ _ rfl).isSome_stableSort _

/-- No index has a field that mixes types, unless its table is small. -/
def Store.Sortable (s : Store) : Prop :=
  ∀ table t, s.tables.get? table = some t →
    ∀ index fields, t.indexes.get? index = some fields → SortableBy fields t.rows

/-- No table of the sample is longer than what is sorted by insertion. -/
theorem Store.length_rows_sample {table : String} {t : StoredTable}
    (ht : sample.tables.get? table = some t) : t.rows.length ≤ 20 := by
  have hall : ∀ t ∈ sample.tables.values, t.rows.length ≤ 20 := by decide +kernel
  exact hall t (Keyed.mem_values_iff.mpr ⟨table, ht⟩)

theorem Store.sortable_sample : Store.sample.Sortable :=
  fun _ _ ht _ _ _ => .inl (length_rows_sample ht)

namespace Store.Sortable

variable {s : Store} {table : String} {left : List Row}

/-- On a sortable store no fetch panics. -/
theorem calm_fetch (h : s.Sortable) (table : String) (access : AccessPath)
    (direction : Option Direction) (count : Option Nat) :
    (s.fetch table access direction count).result.Calm := by
  refine Outcome.calm_of_granted fun hgranted => ?_
  have hopens := granted_fetch_iff.mp hgranted
  cases access with
  | fullScan filter =>
      obtain ⟨t, ht⟩ := exists_of_opens hopens
      rw [fetch_fullScan ht]
      refine Outcome.calm_ofSort (Scan.isSome_take ?_ count)
      rw [Scan.rows_of_unindexed rfl]
      rfl
  | index index planned range residual =>
      obtain ⟨t, fields, ht, hget, hrange⟩ := opens_index_iff.mp hopens
      rw [fetch_index ht hget hrange]
      refine Outcome.calm_ofSort (Scan.isSome_take (Scan.isSome_rows ?_) count)
      intro i hi
      rw [← Option.some.inj hi]
      exact (h table t ht index fields hget).filter _

/-- On a sortable store no look-up panics. -/
theorem calm_fetchKey (h : s.Sortable) (table index field : String) (filter : Option Filter)
    (key : Value) : (s.fetchKey table index field filter key).result.Calm := by
  refine Outcome.calm_of_granted fun hgranted => ?_
  obtain ⟨t, fields, ht, hget, hfield⟩ := granted_fetchKey_iff.mp hgranted
  rw [fetchKey_eq ht hget hfield]
  refine Outcome.calm_ofSort (Scan.isSome_rows ?_)
  intro i hi
  rw [← Option.some.inj hi]
  exact (h table t ht index fields hget).filter _

theorem calm_scanJoin (h : s.Sortable) (join : JoinPlan) (left : List Row) :
    (scanJoin s join left).result.Calm := by
  rw [result_scanJoin]
  exact (h.calm_fetch _ _ _ _).bind fun _ _ => Outcome.calm_ok _

/-- No join panics, whichever way it goes. -/
theorem calm_joinRows (h : s.Sortable) (left : List Row) (join : JoinPlan) :
    (joinRows s left join).result.Calm := by
  by_cases hlooks : join.LooksUp s left
  · obtain ⟨index, c, hstrategy, hprobe, hserved⟩ := hlooks
    rw [joinRows_eq_lookupByKey hstrategy hprobe (granted_lookupByKey_iff.mpr hserved)]
    have hlookups : (lookupByKey s join c index left).result.Calm :=
      Reading.calm_bind (Reading.calm_all fun u _ => h.calm_fetchKey _ _ _ _ u)
        fun _ _ => Outcome.calm_ok _
    exact hlookups.bind fun _ _ => Outcome.calm_ok _
  · rw [joinRows_eq_scanJoin hlooks]
    exact h.calm_scanJoin join left

/-- On a sortable store no sequence of joins panics, by induction on the joins. -/
theorem calm_foldlM_joinRows (h : s.Sortable) (plans : List JoinPlan) (left : List Row) :
    (plans.foldlM (joinRows s) left).result.Calm := by
  induction plans generalizing left with
  | nil => exact Outcome.calm_ok left
  | cons p plans ih =>
      rw [List.foldlM_cons]
      exact Reading.calm_bind (h.calm_joinRows left p) fun out _ => ih out

theorem calm_joinedRows (h : s.Sortable) (p : Plan) (rows : List Row) :
    (p.joinedRows s rows).result.Calm := by
  rw [Plan.joinedRows]
  split
  · exact Outcome.calm_ok rows
  · exact Reading.calm_bind (h.calm_foldlM_joinRows _ _) fun _ _ => Outcome.calm_ok _

/-- **No plan panics over a sortable store before its rows are shown.** -/
theorem calm_held (h : s.Sortable) (p : Plan) (query : Select) : (p.held query s).result.Calm :=
  Reading.calm_bind (h.calm_fetch _ _ _ _) fun _ _ => h.calm_joinedRows p _

/-- On a sortable store the rows before the order are found without a panic. -/
theorem calm_found (h : s.Sortable) (p : Plan) : (p.found s).result.Calm :=
  Reading.calm_bind (h.calm_fetch _ _ _ _) fun _ _ => h.calm_joinedRows p _

end Store.Sortable

/-- A plan whose reads the store opens holds rows, unless a read panics. -/
theorem Plan.granted_held {p : Plan} {query : Select} {s : Store}
    (hsource : s.Opens p.table p.access) (hjoins : ∀ j ∈ p.joins, s.Opens j.table j.access) :
    (p.held query s).result.Granted := by
  refine Reading.granted_bind (Store.granted_fetch_iff.mpr hsource) fun read _ => ?_
  rw [joinedRows]
  split
  · exact Outcome.granted_ok read
  · exact Reading.granted_bind (granted_foldlM_joinRows hjoins _) fun _ _ => Outcome.granted_ok _

-- ── The last sort ───────────────────────────────────────────────────────────

/-- There are few rows, or each key reads one kind of them. -/
def OrderKey.Consistent (keys : List OrderKey) (table : String) (rows : List Row) : Prop :=
  rows.length ≤ 20 ∨ ∀ key ∈ keys, key.ReadsKind table rows

/-- Few rows, and columns that mix no types, are sorted. -/
theorem isSome_sortRows {keys : List OrderKey} {table : String}
    (h : OrderKey.Consistent keys table rows) : (sortRows keys table rows).isSome = true := by
  rcases h with hlength | hkind
  · exact isSome_sortRows_of_length_le keys table hlength
  · obtain ⟨sorted, hsorted, -⟩ := exists_stablySorted hkind
    rw [hsorted]
    rfl

/-- Whether rows are sorted does not depend on their order. -/
theorem OrderKey.Consistent.perm {keys : List OrderKey} {table : String} {rows rows' : List Row}
    (h : Consistent keys table rows) (hperm : rows.Perm rows') : Consistent keys table rows' := by
  refine h.imp hperm.length_eq.ge.trans fun hkind key hkey => ?_
  obtain ⟨kind, hfits⟩ := hkind key hkey
  exact ⟨kind, fun row hrow => hfits row (hperm.mem_iff.mpr hrow)⟩

/-- Without keys nothing is sorted. -/
theorem OrderKey.consistent_nil (table : String) (rows : List Row) :
    Consistent [] table rows :=
  .inr fun _ h => nomatch h

/-- The rows of a plain query are shown if the last sort can sort them. -/
theorem Plan.isSome_shown {p : Plan} {s : Select} {rows : List Row}
    (h : p.order = .inMemory → OrderKey.Consistent s.orderBy s.source rows) :
    (p.shown s rows).isSome = true := by
  rw [shown, Option.isSome_map, ordered]
  split
  · rename_i horder
    exact isSome_sortRows (h horder)
  · rfl

-- ── A column that contradicts itself ────────────────────────────────────────

/-- A document of one field: a number, or a text that comes before two and after ten. -/
def Document.ofCell : Option Nat → Document
  | some n => .object [("v", .integer n)]
  | none => .object [("v", .text "1a")]

/-- A store with one table of one column, and an index on it. -/
def Store.ofColumn (cells : List (Option Nat)) : Store :=
  (((Store.empty.createTable "t").defineIndex "t" "by_v" ["v"]).toOption.getD .empty).insertAll "t"
    (cells.map Document.ofCell)

def Database.ofColumn (cells : List (Option Nat)) : Database :=
  { Database.empty with store := .ofColumn cells }

/-- A store made of one column is made by insertions. -/
theorem Store.reachable_ofColumn {cells : List (Option Nat)}
    (h : ∀ cell ∈ cells, ∀ n ∈ cell, n < 2 ^ 64) :
    (Store.ofColumn cells).Reachable fun d => d.IsJson ∧ d.HasPlainFields := by
  have hindex : (Store.empty.createTable "t").defineIndex "t" "by_v" ["v"]
      = .ok (((Store.empty.createTable "t").defineIndex "t" "by_v" ["v"]).toOption.getD .empty) :=
    eq_ok_of_toOption (by decide +kernel)
  have hplain : Plain "v" := by decide
  refine ((Reachable.empty.createTable "t").defineIndex hindex).insertAll "t" ?_
  intro d hd
  obtain ⟨cell, hcell, rfl⟩ := List.mem_map.mp hd
  cases cell with
  | none => exact ⟨.object (List.forall_mem_singleton.mpr (.text _)),
      List.forall_mem_singleton.mpr hplain⟩
  | some n =>
      have hn := h _ hcell n rfl
      exact ⟨.object (List.forall_mem_singleton.mpr (.integer (by omega) (by omega))),
        List.forall_mem_singleton.mpr hplain⟩

/-- **Values of mixed types have no order.** Two comes before ten and ten before the text, as
    numbers and as texts, but two does not come before the text. -/
theorem Value.not_transCmp_collate : ¬ Std.TransCmp Value.collate := by
  intro h
  have hnumbers : (collate (.number (.ofNat 2)) (.number (.ofNat 10))).isLE = true := by
    decide +kernel
  have htexts : (collate (.number (.ofNat 10)) (.text "1a")).isLE = true := by decide +kernel
  have hends : (collate (.number (.ofNat 2)) (.text "1a")).isLE = false := by decide +kernel
  rw [h.isLE_trans hnumbers htexts] at hends
  exact Bool.noConfusion hends

/-- A column that no sort gets through. -/
def panickingColumn : List (Option Nat) :=
  some 2 :: (List.replicate 9 none ++ List.replicate 11 (some 10))

end DocQuery
