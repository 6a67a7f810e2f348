import DocQuery.Proofs.Sorting.Small

/-!
# The quicksort sorts

A pivot is an element of the list (`choosePivot_lt`), and splitting by it keeps ties, since the
test does not tell tied elements apart. No element comes before the bound
(`exists_arranges_quicksort`), so a pivot that is not above the bound is least, and is split off
with all that are tied with it.

* `sorts_quicksort` — a quicksort sorts if its fallback does.
-/

namespace DocQuery.Sorting

variable {α : Type} {P : α → Prop} {less : α → α → Bool} {bytes : Nat} {xs ys v w : List α}

/-- What a sort gives for each list is the list rearranged, and arranged if the test is that of an
    order. -/
def Sorts (less : α → α → Bool) (sort : List α → Option (List α)) : Prop :=
  ∀ v, SortsList less v (sort v)

-- ── Pivots ──────────────────────────────────────────────────────────────────

/-- The median of three is one of them. -/
theorem medianOfThree_eq_or (less : α → α → Bool) (v : List α) (a b c : Nat) :
    medianOfThree less v a b c = a ∨ medianOfThree less v a b c = b ∨
      medianOfThree less v a b c = c := by
  rw [medianOfThree]
  split
  · split
    · exact .inr (.inr rfl)
    · exact .inr (.inl rfl)
  · exact .inl rfl

/-- A median of medians stands in one of the three parts. -/
theorem medianOfParts_lt {n a b c length : Nat} (hlength : 0 < length) (ha : a + length ≤ n)
    (hb : b + length ≤ n) (hc : c + length ≤ n) : medianOfParts less v a b c length < n := by
  induction length using Nat.strongRecOn generalizing a b c with
  | ind length ih =>
      rw [medianOfParts]
      split
      · have hwithin : ∀ start, start + length ≤ n →
            medianOfParts less v start (start + length / 8 * 4) (start + length / 8 * 7)
              (length / 8) < n :=
          fun start hstart => ih (length / 8) (by omega) (by omega) (by omega) (by omega) (by omega)
        rcases medianOfThree_eq_or less v _ _ _ with h | h | h <;> rw [h]
        · exact hwithin a ha
        · exact hwithin b hb
        · exact hwithin c hc
      · rcases medianOfThree_eq_or less v a b c with h | h | h <;> rw [h] <;> omega

/-- A pivot is an element of the list. -/
theorem choosePivot_lt (hlong : shortLength < v.length) : choosePivot less v < v.length := by
  rw [shortLength] at hlong
  rw [choosePivot]
  split
  · rcases medianOfThree_eq_or less v 0 (v.length / 8 * 4) (v.length / 8 * 7) with h | h | h <;>
      rw [h] <;> omega
  · exact medianOfParts_lt (by omega) (by omega) (by omega) (by omega)

-- ── Splitting ───────────────────────────────────────────────────────────────

/-- Both sides of a split have the items of the whole. -/
theorem splitBy_perm (test : α → Bool) (passes : Bool) (before : List α) (pivot : α)
    (after : List α) : ((splitBy test passes before pivot after).1
      ++ (splitBy test passes before pivot after).2).Perm (before ++ pivot :: after) := by
  have hbefore := List.filter_append_perm test before
  have hafter := List.filter_append_perm test after
  classical
  refine List.perm_iff_count.mpr fun x => ?_
  have hbefore := hbefore.count_eq x
  have hafter := hafter.count_eq x
  simp only [splitBy, List.count_append, List.count_cons] at *
  cases passes <;> simp only [List.count_singleton, List.count_nil, if_true, if_false,
    Bool.false_eq_true] <;> omega

/-- If the pivot passes as the test says, a split is by the test alone. -/
theorem splitBy_eq (test : α → Bool) {passes : Bool} {pivot : α} (h : test pivot = passes)
    (before after : List α) : splitBy test passes before pivot after
      = ((before ++ pivot :: after).filter test, (before ++ pivot :: after).filter (!test ·)) := by
  subst h
  rw [splitBy, List.filter_append, List.filter_append, List.filter_cons, List.filter_cons]
  cases test pivot <;> simp

-- ── Quicksort ───────────────────────────────────────────────────────────────

section Quicksort

variable {fallback : List α → Option (List α)}

/-- Whatever the test says, a result has the items that were given. -/
theorem quicksort_perm (hfallback : Sorts less fallback) {splits : Nat} {bound : Option α}
    (h : quicksort less bytes fallback splits bound v = some w) : w.Perm v := by
  induction splits generalizing bound v w with
  | zero =>
      rw [quicksort] at h
      split at h
      · exact (sortsList_smallSort less bytes v).perm w h
      · exact (hfallback v).perm w h
  | succ splits ih =>
      rw [quicksort] at h
      split at h
      · exact (sortsList_smallSort less bytes v).perm w h
      · simp only at h
        split at h
        · exact .of_eq (Option.some.inj h).symm
        · rename_i pivot after hdrop
          have hv : v.take (choosePivot less v) ++ pivot :: after = v := by
            rw [← hdrop, List.take_append_drop]
          rw [← hv]
          split at h
          · obtain ⟨above, habove, h⟩ := Option.bind_eq_some_iff.mp h
            rw [← Option.some.inj h]
            exact ((ih habove).append_left _).trans (splitBy_perm _ _ _ _ _)
          · obtain ⟨high, hhigh, h⟩ := Option.bind_eq_some_iff.mp h
            obtain ⟨low, hlow, h⟩ := Option.bind_eq_some_iff.mp h
            rw [← Option.some.inj h]
            exact ((ih hlow).append (ih hhigh)).trans (splitBy_perm _ _ _ _ _)

/-- A least pivot is split off with all that are tied with it. -/
theorem arranges_ties {above : List α} {pivot : α} (hless : WeakOrder P less)
    (hv : ∀ x ∈ v, P x) (hpivot : pivot ∈ v) (hleast : ∀ x ∈ v, less x pivot = false)
    (h : Arranges P less (v.filter fun x => !(!less pivot x)) above) :
    Arranges P less v (v.filter (!less pivot ·) ++ above) := by
  have hP := hv pivot hpivot
  have hle : ∀ x ∈ v.filter (!less pivot ·), less pivot x = false :=
    fun x hx => (Bool.not_eq_true' _).mp (List.mem_filter.mp hx).2
  refine .of_keepsTies (List.filter_append_perm _ v) (keepsTies_filter ?_)
    (Arranges.append (.refl ?_) h ?_)
  · intro a ha x hx hax
    rw [(hless.less_eq_of_tied ha (hv x hx) hP hax).2]
  · refine List.pairwise_of_forall_mem_list ?_
    intro x hx y hy
    exact hless.trans (hv x (List.mem_of_mem_filter hx)) hP (hv y (List.mem_of_mem_filter hy))
      (hle x hx) (hleast y (List.mem_of_mem_filter hy))
  · intro x hx u hu
    obtain ⟨hu, hlt⟩ := List.mem_filter.mp hu
    rw [Bool.not_not] at hlt
    exact hless.trans (hv x (List.mem_of_mem_filter hx)) hP (hv u hu) (hle x hx)
      (hless.asymm hP (hv u hu) hlt)

/-- The elements before a pivot and the others are arranged one after the other. -/
theorem arranges_parts {low high : List α} {pivot : α} (hless : WeakOrder P less)
    (hv : ∀ x ∈ v, P x) (hP : P pivot) (hlow : Arranges P less (v.filter (less · pivot)) low)
    (hhigh : Arranges P less (v.filter (!less · pivot)) high) :
    Arranges P less v (low ++ high) := by
  refine .of_keepsTies (List.filter_append_perm _ v) (keepsTies_filter ?_)
    (hlow.append hhigh ?_)
  · intro a ha x hx hax
    rw [(hless.less_eq_of_tied ha (hv x hx) hP hax).1]
  · intro x hx u hu
    obtain ⟨hx, hlt⟩ := List.mem_filter.mp hx
    obtain ⟨hu, hle⟩ := List.mem_filter.mp hu
    exact hless.trans (hv x hx) hP (hv u hu) (hless.asymm (hv x hx) hP hlt)
      ((Bool.not_eq_true' _).mp hle)

/-- Elements that do not come before the bound are arranged. The induction is on the splits; a
    split by a pivot keeps ties, since the test does not tell tied elements apart. -/
theorem exists_arranges_quicksort (hfallback : Sorts less fallback) (hless : WeakOrder P less)
    (splits : Nat) {bound : Option α} (hv : ∀ x ∈ v, P x)
    (hbound : ∀ b ∈ bound, P b ∧ ∀ x ∈ v, less x b = false) :
    ∃ w, quicksort less bytes fallback splits bound v = some w ∧ Arranges P less v w := by
  induction splits generalizing bound v with
  | zero =>
      rw [quicksort]
      split
      · exact (sortsList_smallSort less bytes v).arranges P hless hv
      · exact (hfallback v).arranges P hless hv
  | succ splits ih =>
      rw [quicksort]
      split
      · exact (sortsList_smallSort less bytes v).arranges P hless hv
      · rename_i hlong
        simp only
        cases hdrop : v.drop (choosePivot less v) with
        | nil =>
            have hlt : choosePivot less v < v.length := choosePivot_lt (by omega)
            exact absurd (List.drop_eq_nil_iff.mp hdrop) (by omega)
        | cons pivot after =>
            have happend : v.take (choosePivot less v) ++ pivot :: after = v := by
              rw [← hdrop, List.take_append_drop]
            have hpivot : pivot ∈ v :=
              happend ▸ List.mem_append_right _ List.mem_cons_self
            have hP := hv pivot hpivot
            have hself := hless.irrefl hP
            simp only
            rw [splitBy_eq (less · pivot) hself,
              splitBy_eq (!less pivot ·) (by rw [hself]; rfl), happend]
            split
            · rename_i hleast
              have hle : ∀ x ∈ v, less x pivot = false := by
                rcases Bool.or_eq_true_iff.mp hleast with hany | hempty
                · obtain ⟨b, hb, hle⟩ := Option.any_eq_true _ _ |>.mp hany
                  obtain ⟨hPb, hbound⟩ := hbound b hb
                  exact fun x hx => hless.trans hP hPb (hv x hx)
                    ((Bool.not_eq_true' _).mp hle) (hbound x hx)
                · intro x hx
                  have hnone := List.filter_eq_nil_iff.mp (List.isEmpty_iff.mp hempty) x hx
                  exact Bool.eq_false_iff.mpr hnone
              have hnone : ∀ b ∈ (none : Option α), P b ∧
                  ∀ x ∈ v.filter (fun x => !(!less pivot x)), less x b = false :=
                fun _ h => absurd h (Option.not_mem_none _)
              obtain ⟨above, habove, harr⟩ :=
                ih (fun x hx => hv x (List.mem_of_mem_filter hx)) hnone
              refine ⟨_, by rw [habove]; rfl, ?_⟩
              exact arranges_ties hless hv hpivot hle harr
            · have hboundHigh : ∀ b ∈ some pivot, P b ∧ ∀ x ∈ v.filter (!less · pivot),
                  less x b = false := by
                rintro b ⟨⟩
                exact ⟨hP, fun x hx => (Bool.not_eq_true' _).mp (List.mem_filter.mp hx).2⟩
              have hboundLow : ∀ b ∈ bound, P b ∧ ∀ x ∈ v.filter (less · pivot),
                  less x b = false := by
                intro b hb
                obtain ⟨hPb, hbound⟩ := hbound b hb
                exact ⟨hPb, fun x hx => hbound x (List.mem_of_mem_filter hx)⟩
              obtain ⟨high, hhigh, harr⟩ :=
                ih (fun x hx => hv x (List.mem_of_mem_filter hx)) hboundHigh
              obtain ⟨low, hlow, harr'⟩ :=
                ih (fun x hx => hv x (List.mem_of_mem_filter hx)) hboundLow
              refine ⟨_, by rw [hhigh, hlow]; rfl, ?_⟩
              exact arranges_parts hless hv hP harr' harr

end Quicksort

/-- A quicksort sorts if its fallback does. -/
theorem sorts_quicksort {fallback : List α → Option (List α)} (hfallback : Sorts less fallback)
    (splits : Nat) : Sorts less (quicksort less bytes fallback splits none) := by
  refine fun v => ⟨fun w hw => quicksort_perm hfallback hw, fun P hless hv => ?_⟩
  exact exists_arranges_quicksort hfallback hless splits hv
    fun _ h => absurd h (Option.not_mem_none _)

end DocQuery.Sorting
