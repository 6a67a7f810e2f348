import DocQuery.Proofs.Engine.Grouped

/-!
# Groups partition the rows

Grouping tells rows apart by one text: the keys of their group values with bars between them. Where
the numbers in the rows are finite, the text of two rows is the same just when their group values
are equal, one by one (`textOf_beq_of_isFinite`). Bars, quotes and backslashes in the values make no
difference, since a key shows where it ends. So the groups are the classes of the rows by their
group values, in order of first appearance (`groups_partition_rows`).
-/

namespace DocQuery

/-- The numbers in the row are finite. -/
def Row.IsFinite (row : Row) : Prop :=
  ∀ name v, row.get? name = some v → v.IsFinite

/-- What is read in a row of finite values is finite. -/
theorem Row.IsFinite.resolve {row : Row} (h : row.IsFinite) (table : Option String)
    (field defaultTable : String) : (row.resolve table field defaultTable).IsFinite := by
  have hnone : (none : Option Value).getD .null |>.IsFinite := fun x hx => nomatch hx
  have hor : ∀ first second, ((row.get? first).or (row.get? second)).getD .null |>.IsFinite := by
    intro first second
    cases hfirst : row.get? first with
    | some v => exact h first v hfirst
    | none =>
        rw [Option.none_or]
        cases hsecond : row.get? second with
        | some v => exact h second v hsecond
        | none => exact hnone
  cases table with
  | none => exact hor field (qualify defaultTable field)
  | some t => exact hor (qualify t field) field

theorem Row.isFinite_of_all {row : Row}
    (h : (row.values.all fun v => v.number?.all Number.isFinite) = true) : row.IsFinite := by
  intro name v hv x hx
  have hmem : v ∈ row.values := Keyed.mem_values_iff.mpr ⟨name, hv⟩
  have hnumber := List.all_eq_true.mp h v hmem
  rw [hx] at hnumber
  exact hnumber

namespace Select

variable {s : Select} {rows : List Row}

/-- On rows of finite numbers to agree is to have one group text. -/
theorem textOf_beq_of_isFinite (hfinite : ∀ row ∈ rows, row.IsFinite) :
    ∀ a ∈ rows, ∀ b ∈ rows,
      (GroupKey.textOf s.groupBy s.source a == GroupKey.textOf s.groupBy s.source b)
        = s.agree a b := by
  intro a ha b hb
  rw [Bool.eq_iff_iff, beq_iff_eq]
  refine textOf_eq_iff_of_key ?_
  intro k _
  exact Value.key_eq_iff ((hfinite a ha).resolve _ _ _) ((hfinite b hb).resolve _ _ _)

/-- A query whose calls resolve computes a row for each group of any rows, and shows what its sort
    makes of them. -/
theorem exists_groupRows_eq (hresolve : ∀ call ∈ s.selectedCalls ++ s.havingCalls,
    ∃ resolved, call.resolve = .ok resolved) (rows : List Row) :
    ∃ computed, computed.length = (s.groups rows).length ∧
      s.groupRows rows = .ofSort (s.finish computed) := by
  have hcomputed : ∃ computed, (s.groups rows).mapM s.groupRow = .ok computed := by
    refine mapM_isOk ?_
    intro members hmembers
    have hcomputes : s.Computes members := fun call hcall =>
      Call.compute_isOk (hresolve call hcall) (fun _ => ne_nil_of_mem_groups hmembers) s.source
    exact hcomputes.groupRow
  obtain ⟨computed, hcomputed⟩ := hcomputed
  refine ⟨computed, (mapM_eq_ok_iff.mp hcomputed).length_eq.symm, ?_⟩
  rw [groupRows, hcomputed]
  rfl

/-- Groups are shown if each can be computed and they can be ordered. -/
theorem groupRows_eq_ok_iff {shown : List Row} : s.groupRows rows = .ok shown ↔
    ∃ computed, (s.groups rows).mapM s.groupRow = .ok computed ∧
      s.finish computed = some shown := by
  rw [groupRows, bind_eq_ok_iff]
  exact exists_congr fun _ =>
    and_congr Outcome.ofChecked_eq_ok_iff Outcome.ofSort_eq_ok_iff

end Select

/-- **Grouping partitions the rows**, if their numbers are finite. There is one group for each tuple
    of group values, in the order in which the tuples first appear; its members are the rows that
    have the tuple, in their order; every row is in one group, and rows with different tuples are
    never in the same. One row is computed for each group, before any is tested. These rows are then
    sorted, which panics only over more than twenty. -/
theorem groups_partition_rows {s : Select} {rows : List Row}
    (hfinite : ∀ row ∈ rows, row.IsFinite) :
    ∃ firsts : List Row,
      -- the rows whose tuple no row before them has, in their order
      firsts.Sublist rows ∧
      (∀ first ∈ firsts, rows.find? (fun row => s.agree row first) = some first) ∧
      firsts.Pairwise (fun a b => s.agree b a = false) ∧
      (∀ row ∈ rows, ∃! first, first ∈ firsts ∧ s.agree row first = true) ∧
      -- the groups
      s.groups rows = firsts.map (fun first => rows.filter fun row => s.agree row first) ∧
      (s.groups rows).flatten.Perm rows ∧
      (∀ members ∈ s.groups rows, ∀ a ∈ members, ∀ b ∈ members, s.agree a b = true) ∧
      -- the computed rows
      (∀ shown, s.groupRows rows = .ok shown ↔ ∃ computed,
        List.Forall₂ (fun first row =>
          s.groupRow (rows.filter fun r => s.agree r first) = .ok row) firsts computed ∧
        s.finish computed = some shown) ∧
      ((∀ call ∈ s.selectedCalls ++ s.havingCalls, ∃ resolved, call.resolve = .ok resolved) →
        (s.groupRows rows).Granted ∧
          (firsts.length ≤ 20 ∨ s.orderBy = [] → ∃ shown, s.groupRows rows = .ok shown)) := by
  have hagree := Select.textOf_beq_of_isFinite (s := s) hfinite
  have hfirsts := Keyed.eraseDupsBy_congr hagree
  have hmem : ∀ first ∈ rows.eraseDupsBy s.agree, first ∈ rows :=
    fun _ => Keyed.mem_of_mem_eraseDupsBy
  have hgroups : s.groups rows
      = (rows.eraseDupsBy s.agree).map fun first => rows.filter fun row => s.agree row first := by
    rw [Select.groups_eq_classes]
    exact Keyed.classes_eq_of_beq hagree
  refine ⟨rows.eraseDupsBy s.agree, Keyed.eraseDupsBy_sublist _ rows, ?_,
    Keyed.pairwise_eraseDupsBy _ rows, ?_, hgroups, s.flatten_groups_perm rows, ?_, ?_, ?_⟩
  · intro first hfirst
    have hhead := Keyed.head?_class (hfirsts ▸ hfirst)
    rw [List.filter_congr fun row hrow => hagree row hrow first (hmem first hfirst)] at hhead
    rw [← List.head?_filter]
    exact hhead
  · intro row hrow
    obtain ⟨first, ⟨hfirst, htext⟩, hunique⟩ := Keyed.existsUnique_mem_eraseDupsBy
      (GroupKey.textOf s.groupBy s.source) hrow
    rw [hfirsts] at hfirst hunique
    refine ⟨first, ⟨hfirst, ?_⟩, ?_⟩
    · rw [← hagree row hrow first (hmem first hfirst)]
      exact beq_iff_eq.mpr htext
    · rintro other ⟨hother, hsame⟩
      rw [← hagree row hrow other (hmem other hother)] at hsame
      exact hunique other ⟨hother, beq_iff_eq.mp hsame⟩
  · intro members hmembers a ha b hb
    have hrows := Select.mem_of_mem_groups hmembers
    rw [← hagree a (hrows a ha) b (hrows b hb), beq_iff_eq]
    exact Select.textOf_eq_of_mem_groups hmembers a ha b hb
  · intro shown
    rw [Select.groupRows_eq_ok_iff, hgroups]
    refine exists_congr fun computed => and_congr_left' ?_
    rw [mapM_eq_ok_iff, List.forall₂_map_left_iff]
  · intro hresolve
    obtain ⟨computed, hlength, heq⟩ := Select.exists_groupRows_eq hresolve rows
    rw [hgroups, List.length_map] at hlength
    rw [heq]
    refine ⟨Outcome.granted_ofSort _, fun hsorts => ?_⟩
    have hconsistent : OrderKey.Consistent s.orderBy s.source (computed.filter s.havingHolds) := by
      rcases hsorts with hfew | horder
      · exact .inl ((List.length_filter_le _ _).trans (hlength.trans_le hfew))
      · rw [horder]
        exact OrderKey.consistent_nil _ _
    obtain ⟨shown, hshown⟩ := Option.isSome_iff_exists.mp (Select.isSome_finish hconsistent)
    exact ⟨shown, congrArg Outcome.ofSort hshown⟩

/-- Two pairs of texts that read alike with a bar between them, one of them twice, and a row of zero
    and null, which is written in two ways. -/
def Row.samplePairs : List Row :=
  [.ofList [("a", .text "x|y"), ("b", .text "z")],
    .ofList [("a", .text "x"), ("b", .text "y|z")],
    .ofList [("a", .number .zero), ("b", .null)],
    .ofList [("a", .text "x|y"), ("b", .text "z"), ("c", .boolean true)],
    .ofList [("a", .number (.ofMagnitude true 0))]]

/-- The number of rows of each pair. -/
def Select.samplePairs : Select :=
  { columns := [.field none "a" none, .field none "b" none, .call countAll none]
    source := "pairs"
    indexHint := none
    joins := []
    filter := none
    groupBy := [⟨none, "a"⟩, ⟨none, "b"⟩]
    having := none
    orderBy := []
    limit := none }

/-- Pairs whose texts look the same when put together, zeros of both signs, and a null. -/
theorem groups_partition_rows_sample :
    ∃ firsts : List Row, firsts.Sublist Row.samplePairs ∧ firsts.length = 3 ∧
      (∀ row ∈ Row.samplePairs, ∃! first, first ∈ firsts ∧
        Select.samplePairs.agree row first = true) ∧
      (firsts.map fun first =>
        (Row.samplePairs.filter fun row => Select.samplePairs.agree row first).length) = [2, 1, 2] ∧
      ∃ shown, Select.samplePairs.groupRows Row.samplePairs = .ok shown := by
  have hfinite : ∀ row ∈ Row.samplePairs, row.IsFinite := by
    intro row hrow
    refine Row.isFinite_of_all ?_
    revert row
    decide
  have hcounts : (Select.samplePairs.groups Row.samplePairs).map List.length = [2, 1, 2] := by
    decide +kernel
  obtain ⟨firsts, hsublist, -, -, hunique, hgroups, -, -, -, hshown⟩ :=
    groups_partition_rows (s := Select.samplePairs) hfinite
  rw [hgroups, List.map_map] at hcounts
  have hlength := congrArg List.length hcounts
  rw [List.length_map] at hlength
  refine ⟨firsts, hsublist, hlength, hunique, hcounts, (hshown ?_).2 (.inr rfl)⟩
  intro call hcall
  rw [List.mem_singleton.mp hcall]
  exact ⟨_, rfl⟩

end DocQuery
