import DocQuery.Proofs.Engine.Cells
import DocQuery.Proofs.Engine.Qualified

/-!
# Groups are kept by their aggregates

The condition on groups is tested on the row computed for a group, where each call stands under its
signature between group values, columns and labels. No word is a signature, and in an accepted query
calls of one signature are one call (`wellNamed_of_ofText`), so a test of calls reads their values
over the group (`havingHolds_eq_evaluate`). Just the groups are kept for which the condition is true
of these values, and the result has the output names of the columns only
(`having_keeps_by_aggregates`).
-/

namespace DocQuery

namespace Select

variable {s : Select} {members : List Row} {row : Row}

/-- The query that a text writes is well named. -/
theorem wellNamed_of_ofText {text : String} (htext : ofText text = .ok s) : s.WellNamed :=
  { inWords_ofText htext with
    tables := (plainNames_ofText htext).tables
    arguments := fun _ => arguments_inWords_of_ofText htext }

theorem mem_havingCalls {c : Condition} (hhaving : s.having = some c) {cmp : Comparison}
    (hcmp : cmp ∈ c.comparisons) {call : Call} (hcall : cmp.subject = .call call) :
    call ∈ s.havingCalls := by
  rw [havingCalls, hhaving]
  exact List.mem_filterMap.mpr ⟨cmp, hcmp, by rw [hcall]; rfl⟩

/-- The computed row passes the condition on groups just when that is true of the values that its
    subjects stand for, if the columns among these are read as they stand. -/
theorem WellNamed.havingHolds_eq_evaluate (h : s.WellNamed) (hcheck : s.check = .ok ())
    (hrow : s.groupRow members = .ok row)
    (hcolumns : ∀ c, s.having = some c → ∀ cmp ∈ c.comparisons, ∀ table field,
      cmp.subject = .column table field →
        row.resolve table field s.source = s.firstValue members table field) :
    s.havingHolds row = s.having.all (·.evaluate (s.valueOver members)) := by
  rw [havingHolds]
  cases hhaving : s.having with
  | none => rfl
  | some c =>
      refine Condition.holds_eq_evaluate ?_
      intro cmp hcmp
      cases hsubject : cmp.subject with
      | column table field => exact hcolumns c hhaving cmp hcmp table field hsubject
      | call call =>
          exact h.resolve_call (fun _ => resolve_of_check hcheck)
            (List.mem_append_right _ (mem_havingCalls hhaving hcmp hsubject)) hrow

/-- Every column of an accepted query that is not plain has an output name. -/
theorem exists_outputName (hcheck : s.check = .ok ()) (hplain : s.isPlain = false) {c : Column}
    (hc : c ∈ s.columns) : ∃ name, c.outputName? = some name := by
  refine Option.isSome_iff_exists.mp ?_
  have hshape := (check_eq_ok hcheck).shape
  rw [checkShape] at hshape
  split at hshape
  · have hcolumn := forM_eq_ok_iff.mp hshape c hc
    cases c with
    | star | tableStar _ => cases hcolumn
    | field _ _ _ | call _ _ => rfl
  · rename_i hgrouped
    have haggregate := isAggregateOnly_of_isPlain_eq_false hplain hgrouped
    rw [isAggregateOnly, Bool.and_eq_true] at haggregate
    have hcall := List.all_eq_true.mp haggregate.2 c hc
    cases c with
    | star | tableStar _ => cases hcall
    | field _ _ _ | call _ _ => rfl

end Select

/-- **A condition on groups is true of their aggregates.** If it compares calls, the groups are kept
    for which it is true of the values of the calls over all members, whatever labels, columns and
    group keys the query has. The rows of the groups that are kept come in the order of the groups
    before they are sorted, which panics only by keys that contradict themselves, and what is shown
    of them has the output names of the columns and no other keys. -/
theorem having_keeps_by_aggregates {limits : Limits} {schema : Schema} {text : String} {s : Select}
    {p : Prepared} (htext : Select.ofText text = .ok s)
    (hprepared : Engine.prepareWith limits schema s = .ok p) (hplain : s.isPlain = false)
    (hcalls : ∀ c, s.having = some c → ∀ cmp ∈ c.comparisons, cmp.subject.call?.isSome = true)
    (rows : List Row) :
    ∃ computed,
      -- the calls have values
      (∀ members ∈ s.groupsShown rows, ∀ call ∈ s.havingCalls,
        call.compute s.source members = .ok (s.valueOver members (.call call))) ∧
      -- the groups that are kept
      ((s.groupsShown rows).filter fun members =>
        s.having.all (·.evaluate (s.valueOver members))).mapM s.groupRow = .ok computed ∧
      -- the result
      p.plan.showRows p.query rows =
        .ofSort ((sortRows s.orderBy s.source computed).map fun sorted =>
          (cutAt s.limit sorted).map (projectGroupRow s.columns)) ∧
      (OrderKey.Consistent s.orderBy s.source computed →
        ∃ shown, p.plan.showRows p.query rows = .ok shown) ∧
      (∀ c ∈ s.columns, ∃ name, c.outputName? = some name) ∧
      ∀ shown, p.plan.showRows p.query rows = .ok shown → ∀ row ∈ shown,
        row.keys = (s.columns.filterMap Column.outputName?).eraseDups := by
  obtain ⟨-, hlimits, hcheck, -⟩ := Engine.prepareWith_eq_ok.mp hprepared
  rw [Limits.eq_of_enforce hplain hlimits] at hcheck ⊢
  have hnamed := Select.wellNamed_of_ofText htext
  obtain ⟨computed, hcomputed⟩ := Select.exists_mapM_groupsShown hcheck rows
  have hholds : ∀ members row, s.groupRow members = .ok row →
      s.having.all (·.evaluate (s.valueOver members)) = s.havingHolds row := by
    intro members row hrow
    refine (hnamed.havingHolds_eq_evaluate hcheck hrow ?_).symm
    intro c hhaving cmp hcmp table field hsubject
    have hcall := hcalls c hhaving cmp hcmp
    rw [hsubject] at hcall
    exact nomatch hcall
  have hresult : p.plan.showRows s rows = .ofSort (s.finish computed) := by
    rw [Select.showRows_eq_finish hplain, hcomputed]
    rfl
  rw [hresult]
  refine ⟨computed.filter s.havingHolds, ?_, ?_, rfl, ?_, ?_, ?_⟩
  · intro members hmembers call hcall
    obtain ⟨row, -, hrow⟩ := (mem_mapM hcomputed).2 members hmembers
    obtain ⟨v, hv, -⟩ := hnamed.get?_signature (fun _ => Select.resolve_of_check hcheck)
      (List.mem_append_right _ hcall) hrow
    rw [hv, Select.valueOver, hv]
    rfl
  · exact mapM_eq_ok_iff.mpr (forall₂_filter (mapM_eq_ok_iff.mp hcomputed) hholds)
  · intro hconsistent
    obtain ⟨shown, hshown⟩ := Option.isSome_iff_exists.mp (Select.isSome_finish hconsistent)
    exact ⟨shown, congrArg Outcome.ofSort hshown⟩
  · exact fun c hc => Select.exists_outputName hcheck hplain hc
  · intro shown hshown row hrow
    obtain ⟨remaining, -, rfl⟩ :=
      Select.exists_of_finish_eq_some (Outcome.ofSort_eq_ok_iff.mp hshown)
    obtain ⟨kept, -, rfl⟩ := List.mem_map.mp hrow
    exact Select.keys_projectGroupRow s.columns kept

/-- The cities with several people, or with young people only; the label is the name of a
    function. -/
def Select.sampleCrowded : Select :=
  { columns := [.field none "city" none, .call ⟨"SUM", [.column none "age"]⟩ (some "count")]
    source := "users"
    indexHint := none
    joins := []
    filter := none
    groupBy := [⟨none, "city"⟩]
    having := some (.or (.compare ⟨.call countAll, .gt, .number (.ofNat 1)⟩)
      (.compare ⟨.call ⟨"MAX", [.column none "age"]⟩, .lt, .number (.ofNat 20)⟩))
    orderBy := []
    limit := none }

theorem having_keeps_by_aggregates_sample :
    ∃ p members row shown,
      Engine.prepareWith .standard Store.sample.schema .sampleCrowded = .ok p ∧
      (Select.sampleCrowded.groupsShown Row.sampleCities).map List.length = [2, 1] ∧
      members.length = 2 ∧ Select.sampleCrowded.groupRow members = .ok row ∧
      p.plan.showRows p.query Row.sampleCities = .ok [shown] ∧
      shown = projectGroupRow Select.sampleCrowded.columns row ∧
      shown.keys = ["city", "count"] := by
  have htext : Select.ofText ("SELECT city, SUM(age) AS count FROM users GROUP BY city "
      ++ "HAVING Count(*) > 1 OR max(age) < 20") = .ok .sampleCrowded :=
    eq_ok_of_toOption (by decide +kernel)
  have hprepared : ∃ p, Engine.prepareWith .standard Store.sample.schema .sampleCrowded = .ok p :=
    exists_eq_ok_of_isOk (by decide +kernel)
  have hlengths : (Select.sampleCrowded.groupsShown Row.sampleCities).map List.length = [2, 1] := by
    decide +kernel
  have hkept : (((Select.sampleCrowded.groupsShown Row.sampleCities).filter fun members =>
      Select.sampleCrowded.having.all
        (·.evaluate (Select.sampleCrowded.valueOver members))).map List.length) = [2] := by
    decide +kernel
  obtain ⟨p, hprepared⟩ := hprepared
  obtain ⟨computed, -, hcomputed, hshown, -, -, hkeys⟩ := having_keeps_by_aggregates
    htext hprepared rfl (by rintro c ⟨⟩; decide) Row.sampleCities
  obtain ⟨members, rest, hmembers, hlength, hnil⟩ := List.map_eq_cons_iff.mp hkept
  obtain rfl := List.map_eq_nil_iff.mp hnil
  rw [hmembers, List.mapM_cons] at hcomputed
  obtain ⟨row, hrow, hcomputed⟩ := bind_eq_ok_iff.mp hcomputed
  obtain rfl := Except.ok.inj hcomputed
  exact ⟨p, members, row, _, hprepared, hlengths, hlength, hrow, hshown, rfl,
    hkeys _ hshown _ List.mem_cons_self⟩

end DocQuery
