import DocQuery.Engine.Run
import DocQuery.Proofs.Plan.Access

/-!
# Plans that run alike

Plans for one query may differ in the bounds that they take and the residuals that they leave.
Two access paths are alike when they read through one index with bounds on the same fields, one
after the other, and admit the same rows; two plans are alike when their parts are. Alike plans
have the same run on every store: the same rows in the same order after the same scans, or the
same failure (`Plan.Alike.run`).
-/

namespace DocQuery

/-- What goes on from a store's answers that agree is the same. -/
theorem Reading.ofResult_bind_congr {ε α β γ : Type} {R : α → β → Prop} {x : Except ε α}
    {y : Except ε β} (h : Agree R x y) (cause : ε → QueryError) {f : α → Reading γ}
    {g : β → Reading γ} (hnext : ∀ a b, R a b → f a = g b) :
    Reading.ofResult (.ofChecked (x.mapError cause)) >>= f
      = Reading.ofResult (.ofChecked (y.mapError cause)) >>= g := by
  cases h with
  | error e => rfl
  | @ok a b h =>
      show Reading.mk (f a).result (0 + (f a).scans) = Reading.mk (g b).result (0 + (g b).scans)
      rw [hnext a b h]

-- ── Scans ───────────────────────────────────────────────────────────────────

namespace Scan

/-- The scans read the same rows in the same order. -/
structure Same (q q' : Scan) : Prop where
  source : q.source = q'.source
  fields : q.index.map ScanIndex.fields = q'.index.map ScanIndex.fields
  direction : q.direction = q'.direction
  admits : ∀ row, q.admits row = q'.admits row

variable {q q' : Scan}

/-- Scans that are the same have the same rows. -/
theorem Same.rows (h : q.Same q') : q.rows = q'.rows := by
  have hselected : q.source.rows.filter q.admits = q'.source.rows.filter q'.admits := by
    rw [h.source]
    exact List.filter_congr fun row _ => h.admits row
  have hfields := h.fields
  rw [Scan.rows, Scan.rows, hselected, h.direction]
  cases hindex : q.index with
  | none =>
      rw [hindex] at hfields
      rw [Option.map_eq_none_iff.mp hfields.symm]
  | some i =>
      rw [hindex] at hfields
      obtain ⟨i', hindex', hi⟩ := Option.map_eq_some_iff.mp hfields.symm
      rw [hindex']
      dsimp only
      rw [hi]

/-- Scans that are the same have the same rows up to any count. -/
theorem Same.take (h : q.Same q') (count : Option Nat) : q.take count = q'.take count := by
  cases count with
  | none => exact h.rows
  | some n => exact congrArg (Option.map (List.take n)) h.rows

theorem Same.directed (h : q.Same q') (direction : Direction) :
    (q.directed direction).Same (q'.directed direction) :=
  ⟨h.source, h.fields, rfl, h.admits⟩

/-- A further filter is one more test. -/
theorem admits_filteredBy (q : Scan) (filter : Option Filter) (row : Row) :
    (q.filteredBy filter).admits row = (q.admits row && filter.all (·.holds row)) := by
  cases filter with
  | none => exact (Bool.and_true _).symm
  | some f =>
      show (_ && (q.filters ++ [f]).all (·.holds row)) = _
      rw [List.all_append, ← Bool.and_assoc, List.all_cons, List.all_nil, Bool.and_true]
      rfl

/-- Filters that agree on every row leave the same scan. -/
theorem Same.filteredBy (q : Scan) {filter filter' : Option Filter}
    (h : ∀ row, filter.all (·.holds row) = filter'.all (·.holds row)) :
    (q.filteredBy filter).Same (q.filteredBy filter') := by
  refine ⟨?_, ?_, ?_, ?_⟩
  · cases filter <;> cases filter' <;> rfl
  · cases filter <;> cases filter' <;> rfl
  · cases filter <;> cases filter' <;> rfl
  · intro row
    rw [admits_filteredBy, admits_filteredBy, h]

/-- Bounds on the same fields are refused for the same field. -/
theorem through_agree (q : Scan) (index : String) {range range' : IndexRange}
    (h : range.map Bound.field = range'.map Bound.field) :
    Agree (fun a b => ∃ fields, a = { q with index := some ⟨fields, range⟩ } ∧
      b = { q with index := some ⟨fields, range'⟩ }) (q.through index range)
        (q.through index range') := by
  rw [through, through]
  cases q.source.indexes.get? index with
  | none => exact .error _
  | some fields =>
      have hfind : (range.find? fun b => !fields.contains b.field).map Bound.field
          = (range'.find? fun b => !fields.contains b.field).map Bound.field := by
        have hmap : ∀ r : IndexRange, (r.find? fun b => !fields.contains b.field).map Bound.field
            = (r.map Bound.field).find? fun f => !fields.contains f := by
          intro r
          rw [List.find?_map]
          rfl
        rw [hmap, hmap, h]
      dsimp only
      cases hb : range.find? fun b => !fields.contains b.field with
      | none =>
          rw [hb] at hfind
          rw [Option.map_eq_none_iff.mp hfind.symm]
          exact .ok ⟨fields, rfl, rfl⟩
      | some b =>
          rw [hb] at hfind
          obtain ⟨b', hb', hfield⟩ := Option.map_eq_some_iff.mp hfind.symm
          rw [hb']
          dsimp only
          rw [hfield]
          exact .error _

end Scan

-- ── Access paths ────────────────────────────────────────────────────────────

namespace AccessPath

/-- The paths read through one index, with bounds on the same fields, or through none, and
    admit the same rows. -/
inductive Alike : AccessPath → AccessPath → Prop where
  | fullScan {filter filter' : Option Filter} :
      (∀ row, filter.all (·.holds row) = filter'.all (·.holds row)) →
      Alike (.fullScan filter) (.fullScan filter')
  | index {index : String} {fields : List String} {range range' : IndexRange}
      {residual residual' : Option Filter} :
      range.map Bound.field = range'.map Bound.field →
      (∀ row, (range.holds row && residual.all (·.holds row))
        = (range'.holds row && residual'.all (·.holds row))) →
      Alike (.index index fields range residual) (.index index fields range' residual')

variable {access access' : AccessPath}

/-- Paths that are alike narrow a scan alike. -/
theorem Alike.narrow (h : access.Alike access') (q : Scan) :
    Agree Scan.Same (Store.narrow access q) (Store.narrow access' q) := by
  cases h with
  | fullScan h => exact .ok (Scan.Same.filteredBy q h)
  | @index name fields range range' residual residual' hfields hholds =>
      refine (Scan.through_agree q name hfields).bind ?_
      rintro _ _ ⟨fields, rfl, rfl⟩
      refine .ok ⟨?_, ?_, ?_, ?_⟩
      · cases residual <;> cases residual' <;> rfl
      · cases residual <;> cases residual' <;> rfl
      · cases residual <;> cases residual' <;> rfl
      · intro row
        rw [Scan.admits_filteredBy, Scan.admits_filteredBy, Scan.admits, Scan.admits]
        dsimp only
        rw [Bool.and_right_comm, hholds row, Bool.and_right_comm]

/-- Paths that are alike fetch the same rows with the same scans. -/
theorem Alike.fetch (h : access.Alike access') (store : Store) (table : String)
    (direction : Option Direction) (count : Option Nat) :
    store.fetch table access direction count = store.fetch table access' direction count := by
  rw [Store.fetch, Store.fetch]
  refine congrArg (store.openScan table >>= ·) (funext fun q => ?_)
  refine Reading.ofResult_bind_congr (h.narrow q) _ ?_
  intro a b hsame
  cases direction with
  | none => exact congrArg (fun rows => Reading.ofResult (.ofSort rows)) (hsame.take count)
  | some d =>
      exact congrArg (fun rows => Reading.ofResult (.ofSort rows)) ((hsame.directed d).take count)

/-- Paths that are alike have the same order. -/
theorem Alike.nativeField? (h : access.Alike access') :
    Select.nativeField? access = Select.nativeField? access' := by
  cases h with
  | fullScan => rfl
  | index => rfl

end AccessPath

-- ── Joins ───────────────────────────────────────────────────────────────────

/-- The plans of a joined table differ in the read of the table only, and that is alike. -/
structure JoinPlan.Alike (p p' : JoinPlan) : Prop where
  table : p.table = p'.table
  access : p.access.Alike p'.access
  pushdown : ∀ row, p.pushdown.all (·.holds row) = p'.pushdown.all (·.holds row)
  strategy : p.strategy = p'.strategy
  conditions : p.conditions = p'.conditions

/-- A look-up depends on what its filter says only. -/
theorem Store.fetchKey_congr (store : Store) (table index field : String)
    {filter filter' : Option Filter}
    (h : ∀ row, filter.all (·.holds row) = filter'.all (·.holds row)) :
    store.fetchKey table index field filter = store.fetchKey table index field filter' := by
  have hrows : ∀ q : Scan, (q.filteredBy filter).rows = (q.filteredBy filter').rows :=
    fun q => (Scan.Same.filteredBy q h).rows
  funext key
  rw [fetchKey, fetchKey]
  simp only [hrows]

/-- Plans of a join that are alike join alike. -/
theorem JoinPlan.Alike.joinRows {p p' : JoinPlan} (h : p.Alike p') (store : Store)
    (left : List Row) : joinRows store left p = joinRows store left p' := by
  obtain ⟨table, access, pushdown, strategy, conditions⟩ := p
  obtain ⟨table', access', pushdown', strategy', conditions'⟩ := p'
  obtain ⟨htable, haccess, hpushdown, hstrategy, hconditions⟩ := h
  dsimp only at htable haccess hpushdown hstrategy hconditions
  subst htable hstrategy hconditions
  have hscan : scanJoin store ⟨table, access, pushdown, strategy, conditions⟩ left
      = scanJoin store ⟨table, access', pushdown', strategy, conditions⟩ left := by
    rw [scanJoin, scanJoin, haccess.fetch]
    rfl
  have hlookup : ∀ c index,
      lookupByKey store ⟨table, access, pushdown, strategy, conditions⟩ c index left
        = lookupByKey store ⟨table, access', pushdown', strategy, conditions⟩ c index left := by
    intro c index
    rw [lookupByKey, lookupByKey, Store.fetchKey_congr store table index _ hpushdown]
  rw [DocQuery.joinRows, DocQuery.joinRows, hscan]
  simp only [hlookup]
  rfl

-- ── Plans ───────────────────────────────────────────────────────────────────

namespace Plan

/-- The plans read each table alike, in the same order, and test the same on joined rows. -/
structure Alike (p p' : Plan) : Prop where
  table : p.table = p'.table
  access : p.access.Alike p'.access
  order : p.order = p'.order
  joins : List.Forall₂ JoinPlan.Alike p.joins p'.joins
  postJoinFilter : ∀ row,
    p.postJoinFilter.all (·.holds row p.table) = p'.postJoinFilter.all (·.holds row p.table)

variable {p p' : Plan}

/-- Plans with related joins have joins together. -/
theorem isEmpty_alike {α : Type} {R : α → α → Prop} {joins joins' : List α}
    (h : List.Forall₂ R joins joins') : joins.isEmpty = joins'.isEmpty := by
  cases h with
  | nil => rfl
  | cons => rfl

/-- Sequences of joins that are alike join alike, by induction on the joins. -/
theorem foldlM_joinRows_alike {plans plans' : List JoinPlan}
    (h : List.Forall₂ JoinPlan.Alike plans plans') (store : Store) (rows : List Row) :
    plans.foldlM (joinRows store) rows = plans'.foldlM (joinRows store) rows := by
  induction h generalizing rows with
  | nil => rfl
  | cons hplan _ ih =>
      rw [List.foldlM_cons, List.foldlM_cons, hplan.joinRows]
      exact congrArg (fun next => joinRows store rows _ >>= next) (funext ih)

/-- Plans that are alike hold the same rows after the joins. -/
theorem Alike.joinedRows (h : p.Alike p') (store : Store) (rows : List Row) :
    p.joinedRows store rows = p'.joinedRows store rows := by
  have hfilter : (fun row => p.postJoinFilter.all (·.holds row p.table))
      = fun row => p'.postJoinFilter.all (·.holds row p'.table) := by
    rw [← h.table]
    exact funext h.postJoinFilter
  rw [Plan.joinedRows, Plan.joinedRows, isEmpty_alike h.joins, hfilter,
    foldlM_joinRows_alike h.joins, h.table]

/-- Plans that are alike have the same run. -/
theorem Alike.run (h : p.Alike p') (s : Select) (store : Store) (maxRows : Nat) :
    p.run s store maxRows = p'.run s store maxRows := by
  have hdirection : p.nativeDirection = p'.nativeDirection := by
    rw [nativeDirection, nativeDirection, h.order]
  have hpushed : p.pushedLimit s = p'.pushedLimit s := by
    rw [pushedLimit, pushedLimit, isEmpty_alike h.joins, h.order]
  have hshow : p.showRows s = p'.showRows s := by
    funext rows
    rw [showRows, showRows, showPlain, showPlain, ordered, ordered, h.order]
  rw [Plan.run, Plan.run, h.access.fetch, h.table, hdirection, hpushed, hshow]
  simp only [h.joinedRows]

end Plan

end DocQuery
