import DocQuery.Function
import DocQuery.Proofs.Result.Stable

/-!
# The least and the greatest value

`MIN` and `MAX` go through the values once and keep the first that no other is beyond; the sort
puts that value at an end. Both are least in one direction (`extremum_spec`, `le_of_find?`),
and in a column of one kind the least values are equal.

* `extrema_are_ends` — `MIN` and `MAX` are the ends of the sorted column.
-/

namespace DocQuery

open Value

-- ── Least in a direction ────────────────────────────────────────────────────

/-- How the values before another one compare with it. -/
def Direction.before : Direction → Ordering
  | .ascending => .lt
  | .descending => .gt

namespace Call

variable {direction : Direction} {kind : Kind} {v w best : Value} {values : List Value}

/-- Either extremum is about the order in its direction. -/
theorem collateValue_eq_before_iff (hv : v.isNull = false) (hw : w.isNull = false) :
    collateValue v w = direction.before ↔ collateIn direction v w = .lt := by
  have hvalue : collate v w = collateValue v w := by rw [collate, hv, hw]
  cases direction with
  | ascending =>
      rw [collateIn, hvalue]
      rfl
  | descending =>
      rw [collateIn, collate_swap, hvalue, Ordering.swap_eq_lt]
      rfl

/-- What the values are gone through with is one of them, and none comes before it. -/
theorem foldl_extremum (direction : Direction) (hbest : best.isNull = false ∧ best.Fits kind)
    (hvalues : ∀ v ∈ values, v.isNull = false ∧ v.Fits kind) :
    (values.foldl (fun best v => if collateValue v best = direction.before then v else best) best)
        ∈ best :: values ∧
      ∀ v ∈ best :: values, (collateIn direction (values.foldl
        (fun best v => if collateValue v best = direction.before then v else best) best) v).isLE
          = true := by
  induction values generalizing best with
  | nil =>
      refine ⟨List.mem_cons_self, ?_⟩
      intro v hv
      rw [List.mem_singleton.mp hv]
      exact collateIn_self hbest.2
  | cons x values ih =>
      obtain ⟨hx, hothers⟩ := List.forall_mem_cons.mp hvalues
      rw [List.foldl_cons]
      by_cases hbefore : collateValue x best = direction.before
      · rw [if_pos hbefore]
        obtain ⟨hmem, hle⟩ := ih hx hothers
        refine ⟨List.mem_cons_of_mem _ hmem, ?_⟩
        intro v hv
        rcases List.mem_cons.mp hv with rfl | hv
        · have hlt := (collateValue_eq_before_iff hx.1 hbest.1).mp hbefore
          have hfits : ∀ u ∈ x :: values, u.Fits kind :=
            List.forall_mem_cons.mpr ⟨hx.2, fun u hu => (hothers u hu).2⟩
          exact collateIn_isLE_trans (hfits _ hmem) hx.2 hbest.2 (hle x List.mem_cons_self)
            (Ordering.isLE_of_eq_lt hlt)
        · exact hle v hv
      · rw [if_neg hbefore]
        obtain ⟨hmem, hle⟩ := ih hbest hothers
        refine ⟨?_, ?_⟩
        · rcases List.mem_cons.mp hmem with heq | hmem
          · rw [heq]
            exact List.mem_cons_self
          · exact List.mem_cons_of_mem _ (List.mem_cons_of_mem _ hmem)
        · intro v hv
          rcases List.mem_cons.mp hv with rfl | hv
          · exact hle v List.mem_cons_self
          rcases List.mem_cons.mp hv with rfl | hv
          · have hnot := mt (collateValue_eq_before_iff hx.1 hbest.1).mpr hbefore
            have hge : (collateIn direction best v).isLE = true := by
              have hswap : collateIn direction best v = (collateIn direction v best).swap := by
                cases direction <;> exact collate_swap _ _
              rw [hswap]
              revert hnot
              cases collateIn direction v best <;> decide
            have hfits : ∀ u ∈ best :: values, u.Fits kind :=
              List.forall_mem_cons.mpr ⟨hbest.2, fun u hu => (hothers u hu).2⟩
            exact collateIn_isLE_trans (hfits _ hmem) hbest.2 hx.2 (hle best List.mem_cons_self) hge
          · exact hle v (List.mem_cons_of_mem _ hv)

/-- The extremum of values is null if all of them are. -/
theorem extremum_of_nulls {wanted : Ordering} (h : ∀ v ∈ values, v.isNull = true) :
    extremum wanted values = .null := by
  have hnone : (values.filter fun v => !v.isNull) = [] := by
    refine List.filter_eq_nil_iff.mpr ?_
    intro v hv
    rw [h v hv]
    decide
  rw [extremum, hnone]

/-- The extremum of values of one kind that are not all null is one of them, and none that is not
    null comes before it. -/
theorem extremum_spec (direction : Direction) (hfits : ∀ v ∈ values, v.Fits kind)
    (h : ∃ v ∈ values, v.isNull = false) :
    extremum direction.before values ∈ values ∧
      (extremum direction.before values).isNull = false ∧
      ∀ v ∈ values, v.isNull = false →
        (collateIn direction (extremum direction.before values) v).isLE = true := by
  have hkept : ∀ v ∈ values.filter (fun v => !v.isNull), v ∈ values ∧ v.isNull = false := by
    intro v hv
    obtain ⟨hv, hnull⟩ := List.mem_filter.mp hv
    exact ⟨hv, by simpa using hnull⟩
  have hmem : ∀ v ∈ values, v.isNull = false → v ∈ values.filter fun v => !v.isNull := by
    intro v hv hnull
    exact List.mem_filter.mpr ⟨hv, by rw [hnull]; rfl⟩
  obtain ⟨w, hw, hwnull⟩ := h
  rw [extremum]
  cases hfilter : values.filter fun v => !v.isNull with
  | nil =>
      have habsent := hmem w hw hwnull
      rw [hfilter] at habsent
      exact absurd habsent List.not_mem_nil
  | cons best others =>
      rw [hfilter] at hkept hmem
      have hgood : ∀ v ∈ best :: others, v.isNull = false ∧ v.Fits kind :=
        fun v hv => ⟨(hkept v hv).2, hfits v (hkept v hv).1⟩
      obtain ⟨hbest, hothers⟩ := List.forall_mem_cons.mp hgood
      obtain ⟨hfold, hle⟩ := foldl_extremum direction hbest hothers
      exact ⟨(hkept _ hfold).1, (hkept _ hfold).2, fun v hv hnull => hle v (hmem v hv hnull)⟩

/-- There is no extremum if all values are null. -/
theorem extremum_eq_null_iff (hfits : ∀ v ∈ values, v.Fits kind) :
    extremum direction.before values = .null ↔ ∀ v ∈ values, v = .null := by
  by_cases h : ∃ v ∈ values, v.isNull = false
  · have hspec := (extremum_spec direction hfits h).2.1
    obtain ⟨v, hv, hnull⟩ := h
    refine iff_of_false ?_ ?_
    · intro heq
      rw [heq] at hspec
      exact nomatch hspec
    · intro hall
      rw [hall v hv] at hnull
      exact nomatch hnull
  · have hall : ∀ v ∈ values, v.isNull = true := by
      intro v hv
      by_contra hnull
      exact h ⟨v, hv, Bool.eq_false_iff.mpr hnull⟩
    exact iff_of_true (extremum_of_nulls hall) fun v hv => isNull_iff.mp (hall v hv)

/-- The extremum does not depend on the order of the values. -/
theorem extremum_perm {values' : List Value} (hperm : values'.Perm values)
    (hfits : ∀ v ∈ values, v.Fits kind) :
    (extremum direction.before values').equal (extremum direction.before values) = true := by
  have hfits' : ∀ v ∈ values', v.Fits kind := fun v hv => hfits v (hperm.subset hv)
  by_cases h : ∃ v ∈ values, v.isNull = false
  · obtain ⟨v, hv, hnull⟩ := h
    obtain ⟨hmem, hvalue, hle⟩ := extremum_spec direction hfits ⟨v, hv, hnull⟩
    obtain ⟨hmem', hvalue', hle'⟩ :=
      extremum_spec direction hfits' ⟨v, hperm.mem_iff.mpr hv, hnull⟩
    exact equal_of_isLE direction (hfits' _ hmem') (hfits _ hmem)
      (hle' _ (hperm.mem_iff.mpr hmem) hvalue) (hle _ (hperm.mem_iff.mp hmem') hvalue')
  · have hnull : ∀ v ∈ values, v = .null := by
      intro v hv
      by_contra hne
      exact h ⟨v, hv, Bool.eq_false_iff.mpr fun hnull => hne (isNull_iff.mp hnull)⟩
    rw [(extremum_eq_null_iff hfits).mpr hnull,
      (extremum_eq_null_iff hfits').mpr fun v hv => hnull v (hperm.subset hv)]
    rfl

end Call

-- ── The ends of a sorted column ─────────────────────────────────────────────

section Ends

variable {direction : Direction} {values : List Value} {v w : Value}

/-- Of sorted values the first that is not null comes before all that are not. -/
theorem le_of_find? {kind : Kind} (hfits : ∀ v ∈ values, v.Fits kind)
    (hsorted : values.Pairwise fun v w => (collateIn direction v w).isLE = true)
    (hw : values.find? (fun v => !v.isNull) = some w) (hv : v ∈ values) (hnull : v.isNull = false) :
    (collateIn direction w v).isLE = true := by
  obtain ⟨-, front, back, rfl, hfront⟩ := List.find?_eq_some_iff_append.mp hw
  have hwmem : w ∈ front ++ w :: back := List.mem_append_right _ List.mem_cons_self
  rcases List.mem_append.mp hv with hv | hv
  · have hvnull := hfront v hv
    rw [hnull] at hvnull
    exact nomatch hvnull
  · rcases List.mem_cons.mp hv with rfl | hv
    · exact collateIn_self (hfits _ hwmem)
    · exact List.rel_of_pairwise_cons (List.pairwise_append.mp hsorted).2.1 hv

/-- In ascending order null comes last, so the first value is the first that is not null. -/
theorem head?_eq_find? (hsorted : values.Pairwise fun v w => (collateIn .ascending v w).isLE = true)
    (h : ∃ v ∈ values, v.isNull = false) : values.head? = values.find? fun v => !v.isNull := by
  cases values with
  | nil =>
      obtain ⟨v, hv, -⟩ := h
      exact absurd hv List.not_mem_nil
  | cons w values =>
      have hw : w.isNull = false := by
        obtain ⟨v, hv, hnull⟩ := h
        rcases List.mem_cons.mp hv with rfl | hv
        · exact hnull
        · exact isNull_of_collate_isLE (List.rel_of_pairwise_cons hsorted hv) hnull
      rw [List.find?_cons_of_pos (by rw [hw]; rfl), List.head?_cons]

end Ends

-- ── MIN and MAX ─────────────────────────────────────────────────────────────

section Calls

variable {qualifier : Option String} {field table : String} {rows sorted : List Row}
  {direction : Direction}

/-- `MIN` is the extremum that comes first in ascending order. -/
theorem compute_min (qualifier : Option String) (field table : String) (rows : List Row) :
    (⟨"MIN", [.column qualifier field]⟩ : Call).compute table rows = .ok (Call.extremum
      Direction.ascending.before (rows.map (·.resolve qualifier field table))) :=
  rfl

/-- `MAX` is the extremum that comes first in descending order. -/
theorem compute_max (qualifier : Option String) (field table : String) (rows : List Row) :
    (⟨"MAX", [.column qualifier field]⟩ : Call).compute table rows = .ok (Call.extremum
      Direction.descending.before (rows.map (·.resolve qualifier field table))) :=
  rfl

theorem pairwise_column
    (hkind : (⟨qualifier, field, direction⟩ : OrderKey).ReadsKind table rows)
    (hsort : sortRows [⟨qualifier, field, direction⟩] table rows = some sorted) :
    (sorted.map (·.resolve qualifier field table)).Pairwise
      fun v w => (collateIn direction v w).isLE = true :=
  List.pairwise_map.mpr (pairwise_sortRows hkind hsort)

/-- The extremum of a column is the first value of the sorted column that is not null. -/
theorem exists_find?_sortRows
    (hkind : (⟨qualifier, field, direction⟩ : OrderKey).ReadsKind table rows)
    (hsort : sortRows [⟨qualifier, field, direction⟩] table rows = some sorted)
    (h : ∃ row ∈ rows, (row.resolve qualifier field table).isNull = false) :
    ∃ v, (sorted.map (·.resolve qualifier field table)).find? (fun v => !v.isNull) = some v ∧
      (Call.extremum direction.before (rows.map (·.resolve qualifier field table))).equal v
        = true := by
  have hsorted := pairwise_column hkind hsort
  obtain ⟨kind, hfits⟩ := hkind
  have hperm := (sortRows_perm hsort).map (·.resolve qualifier field table)
  have hfits : ∀ v ∈ rows.map (·.resolve qualifier field table), v.Fits kind :=
    List.forall_mem_map.mpr hfits
  have hfits' := fun v hv => hfits v (hperm.subset hv)
  obtain ⟨row, hrow, hnull⟩ := h
  have hmem := List.mem_map_of_mem (f := (·.resolve qualifier field table)) hrow
  obtain ⟨hleast, hvalue, hle⟩ :=
    Call.extremum_spec direction hfits ⟨_, hmem, hnull⟩
  have hsome : ((sorted.map (·.resolve qualifier field table)).find?
      fun v => !v.isNull).isSome = true :=
    List.find?_isSome.mpr ⟨_, hperm.mem_iff.mpr hmem, by rw [hnull]; rfl⟩
  obtain ⟨v, hv⟩ := Option.isSome_iff_exists.mp hsome
  have hvmem := List.mem_of_find?_eq_some hv
  have hvnull : v.isNull = false := by simpa using List.find?_some hv
  refine ⟨v, hv, equal_of_isLE direction (hfits _ hleast) (hfits' v hvmem) ?_ ?_⟩
  · exact hle v (hperm.subset hvmem) hvnull
  · exact le_of_find? hfits' hsorted hv (hperm.mem_iff.mpr hleast) hvalue

/-- **The extrema are the ends of the sorted column.** Where a column has nulls and values of one
    kind, the sort does not panic; `MIN` is the first of its values in ascending order and `MAX` the
    first in descending order that is not null; they are null just when all values are, and the
    order of the rows does not change them. -/
theorem extrema_are_ends
    (hkind : (⟨qualifier, field, .ascending⟩ : OrderKey).ReadsKind table rows) :
    ∃ least greatest up down,
      (⟨"MIN", [.column qualifier field]⟩ : Call).compute table rows = .ok least ∧
      (⟨"MAX", [.column qualifier field]⟩ : Call).compute table rows = .ok greatest ∧
      sortRows [⟨qualifier, field, .ascending⟩] table rows = some up ∧
      sortRows [⟨qualifier, field, .descending⟩] table rows = some down ∧
      ((∃ row ∈ rows, (row.resolve qualifier field table).isNull = false) →
        (∃ v, (up.map (·.resolve qualifier field table)).head? = some v ∧
          least.equal v = true) ∧
        ∃ v, (down.map (·.resolve qualifier field table)).find? (fun v => !v.isNull) = some v ∧
          greatest.equal v = true) ∧
      (least = .null ↔ ∀ row ∈ rows, row.resolve qualifier field table = .null) ∧
      (greatest = .null ↔ ∀ row ∈ rows, row.resolve qualifier field table = .null) ∧
      ∀ rows' : List Row, rows'.Perm rows → ∃ least' greatest',
        (⟨"MIN", [.column qualifier field]⟩ : Call).compute table rows' = .ok least' ∧
        (⟨"MAX", [.column qualifier field]⟩ : Call).compute table rows' = .ok greatest' ∧
        least'.equal least = true ∧ greatest'.equal greatest = true := by
  have hkind' : (⟨qualifier, field, .descending⟩ : OrderKey).ReadsKind table rows := hkind
  obtain ⟨up, hup, -⟩ := exists_stablySorted (List.forall_mem_singleton.mpr hkind)
  obtain ⟨down, hdown, -⟩ := exists_stablySorted (List.forall_mem_singleton.mpr hkind')
  have hsorted := pairwise_column hkind hup
  have hascending := exists_find?_sortRows hkind hup
  obtain ⟨kind, hfits⟩ := hkind
  have hfits : ∀ v ∈ rows.map (·.resolve qualifier field table), v.Fits kind :=
    List.forall_mem_map.mpr hfits
  refine ⟨_, _, up, down, compute_min _ _ _ _, compute_max _ _ _ _, hup, hdown, ?_, ?_, ?_, ?_⟩
  · intro h
    refine ⟨?_, exists_find?_sortRows hkind' hdown h⟩
    obtain ⟨v, hv, hequal⟩ := hascending h
    refine ⟨v, ?_, hequal⟩
    rw [head?_eq_find? hsorted ?_, hv]
    exact ⟨v, List.mem_of_find?_eq_some hv, by simpa using List.find?_some hv⟩
  · rw [Call.extremum_eq_null_iff hfits, List.forall_mem_map]
  · rw [Call.extremum_eq_null_iff hfits, List.forall_mem_map]
  · intro rows' hperm
    have hvalues := hperm.map (·.resolve qualifier field table)
    exact ⟨_, _, compute_min _ _ _ _, compute_max _ _ _ _, Call.extremum_perm hvalues hfits,
      Call.extremum_perm hvalues hfits⟩

/-- The ends of a column of names, one of which is missing. -/
theorem extrema_are_ends_sample :
    (⟨none, "name", .ascending⟩ : OrderKey).ReadsKind "t" samplePeople ∧
    (⟨"MIN", [.column none "name"]⟩ : Call).compute "t" samplePeople = .ok (.text "apple") ∧
    (⟨"MAX", [.column none "name"]⟩ : Call).compute "t" samplePeople = .ok (.text "banana") ∧
    (∃ up down, sortRows [⟨none, "name", .ascending⟩] "t" samplePeople = some up ∧
      sortRows [⟨none, "name", .descending⟩] "t" samplePeople = some down ∧
      (up.map (·.resolve none "name" "t")).head? = some (.text "apple") ∧
      (down.map (·.resolve none "name" "t")).find? (fun v => !v.isNull)
        = some (.text "banana")) ∧
    (⟨"MIN", [.column none "name"]⟩ : Call).compute "t" samplePeople.reverse
      = .ok (.text "apple") := by
  have hkind : (⟨none, "name", .ascending⟩ : OrderKey).ReadsKind "t" samplePeople :=
    ⟨.text, by decide +kernel⟩
  have htext : ∀ {s : String} {v : Value}, (Value.text s).equal v = true → v = .text s := by
    intro s v h
    rcases equal_iff.mp h with ⟨-, heq⟩ | ⟨x, y, heq, -⟩
    · exact heq.symm
    · exact nomatch heq
  have hmin : (⟨"MIN", [.column none "name"]⟩ : Call).compute "t" samplePeople
      = .ok (.text "apple") := eq_ok_of_toOption (by decide +kernel)
  have hmax : (⟨"MAX", [.column none "name"]⟩ : Call).compute "t" samplePeople
      = .ok (.text "banana") := eq_ok_of_toOption (by decide +kernel)
  obtain ⟨least, greatest, up, down, hleast, hgreatest, hup, hdown, hends, -, -, hperm⟩ :=
    extrema_are_ends hkind
  obtain rfl := Except.ok.inj (hmin.symm.trans hleast)
  obtain rfl := Except.ok.inj (hmax.symm.trans hgreatest)
  obtain ⟨⟨v, hv, hfirst⟩, w, hw, hlast⟩ := hends (by decide +kernel)
  obtain ⟨least', greatest', hleast', -, hsame, -⟩ := hperm _ samplePeople.reverse_perm
  refine ⟨hkind, hmin, hmax, ⟨up, down, hup, hdown, ?_, ?_⟩, ?_⟩
  · rw [hv, htext hfirst]
  · rw [hw, htext hlast]
  · rw [hleast', htext (equal_symm hsame)]

end Calls

end DocQuery
