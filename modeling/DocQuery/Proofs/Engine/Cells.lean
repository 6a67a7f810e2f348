import DocQuery.Proofs.Engine.Aggregate
import DocQuery.Proofs.Result.Computed

/-!
# Every cell of a result is its column's

A query of groups or aggregates computes one row for each of the groups that it shows
(`showRows_eq_finish`), and of that row it shows what stands under the output names of its columns.
Where these are different, that is the value of the column in the group and nothing else
(`selected_cells_own_values`), though labels may be names of group keys or of other columns.
-/

namespace DocQuery

namespace Select

variable {s : Select} {rows members : List Row} {row : Row}

-- ── Groups that are shown ───────────────────────────────────────────────────

/-- The groups that a query shows; without group keys all rows make up one. -/
def groupsShown (s : Select) (rows : List Row) : List (List Row) :=
  if s.isGrouped then s.groups rows else [rows]

/-- A query that is not plain computes the row of every group that it shows and then finishes. -/
theorem showRows_eq_finish (hplain : s.isPlain = false) (p : Plan) (rows : List Row) :
    p.showRows s rows = Outcome.ofChecked ((s.groupsShown rows).mapM s.groupRow)
      >>= fun computed => .ofSort (s.finish computed) := by
  rw [Plan.showRows, groupsShown]
  split
  · rfl
  · rename_i hgrouped
    rw [if_pos (isAggregateOnly_of_isPlain_eq_false hplain hgrouped), aggregateAll,
      List.mapM_cons, List.mapM_nil]
    cases s.groupRow rows <;> rfl

/-- So it runs on the rows that it finds, and the host's cap is taken of what it finishes. -/
theorem run_eq_finish {schema : Schema} {store : Store} {p : Plan} {computed : List Row}
    (hplan : s.plan schema = .ok p) (hplain : s.isPlain = false)
    (hrows : (p.found store).result = .ok rows)
    (hcomputed : (s.groupsShown rows).mapM s.groupRow = .ok computed) (maxRows : Nat) :
    (p.run s store maxRows).result = .ofSort ((s.finish computed).map (·.take maxRows)) := by
  have hcount : p.pushedLimit s = none := by
    rw [Plan.pushedLimit, hplain]
    rfl
  rw [Plan.run_found hcount (nativeDirection_of_isPlain_eq_false hplan hplain), hrows]
  show (p.showRows s rows).map _ = _
  rw [showRows_eq_finish hplain, hcomputed]
  show (Outcome.ofSort (s.finish computed)).map _ = _
  cases s.finish computed <;> rfl

/-- An accepted query has a row for every group that it shows. -/
theorem exists_mapM_groupsShown (hcheck : s.check = .ok ()) (rows : List Row) :
    ∃ computed, (s.groupsShown rows).mapM s.groupRow = .ok computed := by
  refine mapM_isOk ?_
  intro members hmembers
  refine ((check_eq_ok hcheck).computes hcheck ?_).groupRow
  intro hgrouped
  rw [groupsShown, if_pos hgrouped] at hmembers
  exact ne_nil_of_mem_groups hmembers

-- ── Result rows ─────────────────────────────────────────────────────────────

/-- A result row has the output names of the columns for keys, in the order in which they first
    appear. -/
theorem keys_projectGroupRow (columns : List Column) (row : Row) :
    (projectGroupRow columns row).keys = (columns.filterMap Column.outputName?).eraseDups := by
  rw [projectGroupRow, Keyed.keys_ofList, List.map_map]
  exact congrArg List.eraseDups (List.map_id _)

/-- The row shows of the group what the columns say, and nothing else. -/
structure ShowsOnly (s : Select) (members : List Row) (row : Row) : Prop extends
    s.Shows members row where
  keys : row.keys = s.columns.filterMap Column.outputName?

theorem Distinct.showsOnly (h : s.Distinct) (hrow : s.groupRow members = .ok row) :
    s.ShowsOnly members (projectGroupRow s.columns row) :=
  { (h.shows hrow).project with
    keys := (keys_projectGroupRow s.columns row).trans (Keyed.eraseDups_of_nodup h.nodup) }

/-- What a query shows are some of the computed rows in some order, each projected. -/
theorem exists_of_finish_eq_some {computed shown : List Row} (h : s.finish computed = some shown) :
    ∃ remaining : List Row, remaining.Subperm computed ∧
      shown = remaining.map (projectGroupRow s.columns) := by
  have hcut : ∀ rows, (cutAt s.limit rows).Sublist rows := by
    intro rows
    rw [cutAt]
    cases s.limit with
    | none => exact List.Sublist.refl rows
    | some n => exact List.take_sublist n rows
  obtain ⟨sorted, hsorted, rfl⟩ := Option.map_eq_some_iff.mp h
  refine ⟨_, (hcut sorted).subperm.trans ?_, rfl⟩
  exact (sortRows_perm hsorted).subperm.trans List.filter_sublist.subperm

end Select

/-- **Every cell of a result is its own column's value.** Of each group that an accepted query of
    groups or aggregates shows, if its output names are different, the result row shows under the
    name of every column the value of that column, a call's over all members and a plain column's of
    the first, and it has no other keys. The rows of the result are such rows, and there is a result
    if the rows that pass the condition on groups can be sorted. -/
theorem selected_cells_own_values {limits : Limits} {schema : Schema} {text : String} {s : Select}
    {p : Prepared} (htext : Select.ofText text = .ok s)
    (hprepared : Engine.prepareWith limits schema s = .ok p) (hplain : s.isPlain = false)
    (hnames : (s.columns.filterMap Column.outputName?).Nodup) (rows : List Row) :
    ∃ computed,
      -- every group
      (s.groupsShown rows).mapM s.groupRow = .ok computed ∧
      List.Forall₂ s.ShowsOnly (s.groupsShown rows) (computed.map (projectGroupRow s.columns)) ∧
      -- the result
      (p.plan.showRows p.query rows).Granted ∧
      (OrderKey.Consistent s.orderBy s.source (computed.filter s.havingHolds) →
        ∃ shown, p.plan.showRows p.query rows = .ok shown) ∧
      ∀ shown, p.plan.showRows p.query rows = .ok shown → ∃ groups,
        List.Forall₂ s.ShowsOnly groups shown ∧ groups.Subperm (s.groupsShown rows) := by
  obtain ⟨-, hlimits, hcheck, -⟩ := Engine.prepareWith_eq_ok.mp hprepared
  rw [Limits.eq_of_enforce hplain hlimits] at hcheck ⊢
  have hdistinct := Select.distinct_of_ofText htext hcheck hnames
  obtain ⟨computed, hcomputed⟩ := Select.exists_mapM_groupsShown hcheck rows
  have hshows : List.Forall₂ (fun members row =>
      s.ShowsOnly members (projectGroupRow s.columns row)) (s.groupsShown rows) computed :=
    (mapM_eq_ok_iff.mp hcomputed).imp fun _ _ => hdistinct.showsOnly
  have hresult : p.plan.showRows s rows = .ofSort (s.finish computed) := by
    rw [Select.showRows_eq_finish hplain, hcomputed]
    rfl
  rw [hresult]
  refine ⟨computed, hcomputed, List.forall₂_map_right_iff.mpr hshows, Outcome.granted_ofSort _,
    ?_, ?_⟩
  · intro hconsistent
    obtain ⟨shown, hshown⟩ := Option.isSome_iff_exists.mp (Select.isSome_finish hconsistent)
    exact ⟨shown, congrArg Outcome.ofSort hshown⟩
  · intro shown hshown
    obtain ⟨remaining, hremaining, rfl⟩ :=
      Select.exists_of_finish_eq_some (Outcome.ofSort_eq_ok_iff.mp hshown)
    obtain ⟨groups, hgroups, hremain⟩ := exists_subperm_of_forall₂ hshows hremaining
    exact ⟨groups, List.forall₂_map_right_iff.mpr hremain, hgroups⟩

/-- People in two cities. -/
def Row.sampleCities : List Row :=
  [.ofList [("city", .text "Rome"), ("age", .number (.ofNat 31))],
    .ofList [("city", .text "Oslo"), ("age", .number (.ofNat 27))],
    .ofList [("city", .text "Rome")]]

/-- The number of people in each city, under the name of the group key. -/
def Select.sampleLabels : Select :=
  { columns := [.field none "city" (some "name"), .call countAll (some "city"),
      .call ⟨"MAX", [.column none "age"]⟩ (some "age"), .call countAll none]
    source := "users"
    indexHint := none
    joins := []
    filter := none
    groupBy := [⟨none, "city"⟩]
    having := some (.compare ⟨.column none "city", .gtEq, .number (.ofNat 1)⟩)
    orderBy := []
    limit := none }

theorem selected_cells_own_values_sample :
    ∃ p computed groups shown,
      Engine.prepareWith .standard Store.sample.schema .sampleLabels = .ok p ∧
      (Select.sampleLabels.groupsShown Row.sampleCities).map List.length = [2, 1] ∧
      List.Forall₂ Select.sampleLabels.ShowsOnly
        (Select.sampleLabels.groupsShown Row.sampleCities) computed ∧
      computed.map (fun row => (row.value "name", row.value "city", row.value "age"))
        = [(.text "Rome", .number (.ofNat 2), .number (.ofNat 31)),
          (.text "Oslo", .number (.ofNat 1), .number (.ofNat 27))] ∧
      p.plan.showRows p.query Row.sampleCities = .ok shown ∧
      List.Forall₂ Select.sampleLabels.ShowsOnly groups shown := by
  have htext : Select.ofText ("SELECT city AS name, COUNT(*) AS city, MAX(age) AS age, COUNT(*) "
      ++ "FROM users GROUP BY city HAVING city >= 1") = .ok .sampleLabels :=
    eq_ok_of_toOption (by decide +kernel)
  have hprepared : ∃ p, Engine.prepareWith .standard Store.sample.schema .sampleLabels = .ok p :=
    exists_eq_ok_of_isOk (by decide +kernel)
  have hvalues : ((Select.sampleLabels.groupsShown Row.sampleCities).mapM
        Select.sampleLabels.groupRow).map (·.map fun row =>
          let shown := projectGroupRow Select.sampleLabels.columns row
          (shown.value "name", shown.value "city", shown.value "age"))
      = .ok [(.text "Rome", .number (.ofNat 2), .number (.ofNat 31)),
          (.text "Oslo", .number (.ofNat 1), .number (.ofNat 27))] :=
    eq_ok_of_toOption (by decide +kernel)
  obtain ⟨p, hprepared⟩ := hprepared
  obtain ⟨computed, hcomputed, hcells, -, hsorted, hresult⟩ :=
    selected_cells_own_values htext hprepared rfl (by decide) Row.sampleCities
  obtain ⟨shown, hshown⟩ := hsorted (OrderKey.consistent_nil _ _)
  obtain ⟨groups, hresult, -⟩ := hresult shown hshown
  rw [hcomputed] at hvalues
  refine ⟨p, _, groups, shown, hprepared, by decide +kernel, hcells, ?_, hshown, hresult⟩
  rw [List.map_map]
  exact Except.ok.inj hvalues

end DocQuery
