import DocQuery.Proofs.Sorting.Quick

/-!
# The sort is stable, and fails only on a contradiction

Whatever the comparison is, the sort gives its elements rearranged (`stableSort_perm`). If the
comparison is a total preorder of the elements, it gives the one stable arrangement
(`stableSort_eq_some`), and up to twenty elements it always gives a list
(`isSome_stableSort_of_length_le`).

The list is cut into runs that are what they say they are (`Run.Valid`). The runs on the stack,
the one behind them and those that follow hold in all what the list holds, with its ties
(`exists_valid_collapse`, `exists_valid_mergeAll`): a merge moves elements of neighbours only. The
length of the list is fuel enough to cut it (`cutRuns_eq`).
-/

namespace DocQuery.Sorting

variable {α : Type} {P : α → Prop} {less : α → α → Bool} {bytes : Nat} {xs ys v w : List α}

-- ── Runs ────────────────────────────────────────────────────────────────────

/-- A run and what is behind it are the list. -/
theorem extend_append (follows : α → α → Bool) (last : α) (v : List α) :
    (extend follows last v).1 ++ (extend follows last v).2 = v := by
  induction v generalizing last with
  | nil => rfl
  | cons x v ih =>
      rw [extend]
      split
      · exact congrArg (x :: ·) (ih x)
      · rfl

/-- If the test is transitive, it holds of any two elements of a run. -/
theorem pairwise_extend (follows : α → α → Bool) (htrans : ∀ a b c, P a → P b → P c →
      follows a b = true → follows b c = true → follows a c = true)
    {last : α} (hlast : P last) (hv : ∀ x ∈ v, P x) :
    (last :: (extend follows last v).1).Pairwise fun a b => follows a b = true := by
  induction v generalizing last with
  | nil => exact List.pairwise_singleton _ _
  | cons x v ih =>
      obtain ⟨hx, hv⟩ := List.forall_mem_cons.mp hv
      rw [extend]
      split
      · rename_i hfollows
        have hrun := ih hx hv
        refine List.pairwise_cons.mpr ⟨List.forall_mem_cons.mpr ⟨hfollows, ?_⟩, hrun⟩
        intro y hy
        have hPy : P y := hv y (extend_append follows x v ▸ List.mem_append_left _ hy)
        exact htrans last x y hlast hx hPy hfollows (List.rel_of_pairwise_cons hrun hy)
      · exact List.pairwise_singleton _ _

/-- A run that is reversed has the same items. -/
theorem findRun_perm (less : α → α → Bool) (v : List α) :
    ((findRun less v).1 ++ (findRun less v).2).Perm v := by
  match v with
  | [] => exact .refl _
  | [x] => exact .refl _
  | x :: y :: v =>
      rw [findRun]
      split
      · refine ((List.reverse_perm _).append_right _).trans (.of_eq ?_)
        exact congrArg (x :: y :: ·) (extend_append _ y v)
      · exact .of_eq (congrArg (x :: y :: ·) (extend_append _ y v))

/-- A list all of whose elements come before the earlier ones is turned around. -/
theorem arranges_reverse (hless : WeakOrder P less) (hv : ∀ x ∈ v, P x)
    (h : v.Pairwise fun a b => less b a = true) : Arranges P less v v.reverse := by
  induction v with
  | nil => exact .refl .nil
  | cons x v ih =>
      obtain ⟨hx, hv⟩ := List.forall_mem_cons.mp hv
      obtain ⟨hfirst, hrest⟩ := List.pairwise_cons.mp h
      have hone : ∀ y ∈ [x], P y := List.forall_mem_singleton.mpr hx
      have hmoved := keepsTies_swap hless hone hv (List.forall_mem_singleton.mpr hfirst)
      rw [List.reverse_cons]
      refine .of_keepsTies List.perm_append_comm hmoved ((ih hv hrest).append (.refl
        (List.pairwise_singleton _ x)) ?_)
      intro y hy z hz
      rw [List.mem_singleton.mp hz]
      exact hless.asymm (hv y hy) hx (hfirst y hy)

/-- The first run arranges the elements it is made of. -/
theorem exists_arranges_findRun (hless : WeakOrder P less) (hv : ∀ x ∈ v, P x) :
    ∃ xs, v = xs ++ (findRun less v).2 ∧ Arranges P less xs (findRun less v).1 := by
  match v, hv with
  | [], _ => exact ⟨[], rfl, .refl .nil⟩
  | [x], _ => exact ⟨[x], rfl, .refl (List.pairwise_singleton _ x)⟩
  | x :: y :: v, hv =>
      obtain ⟨hx, hv⟩ := List.forall_mem_cons.mp hv
      obtain ⟨hy, hv⟩ := List.forall_mem_cons.mp hv
      rw [findRun]
      split
      · rename_i hyx
        let follows := fun last next => less next last
        have hrun := pairwise_extend follows (fun a b c ha hb hc hab hbc =>
          hless.lt_of_lt_of_le hc hb ha hbc (hless.asymm hb ha hab)) hy hv
        refine ⟨x :: y :: (extend follows y v).1,
          (congrArg (x :: y :: ·) (extend_append follows y v)).symm, ?_⟩
        have hmem : ∀ z ∈ y :: (extend follows y v).1, P z := by
          refine List.forall_mem_cons.mpr ⟨hy, fun z hz => hv z ?_⟩
          exact extend_append follows y v ▸ List.mem_append_left _ hz
        refine arranges_reverse hless (List.forall_mem_cons.mpr ⟨hx, hmem⟩)
          (List.pairwise_cons.mpr ⟨List.forall_mem_cons.mpr ⟨hyx, ?_⟩, hrun⟩)
        intro z hz
        exact hless.lt_of_lt_of_le (hmem z (List.mem_cons_of_mem _ hz)) hy hx
          (List.rel_of_pairwise_cons hrun hz) (hless.asymm hy hx hyx)
      · rename_i hyx
        let follows := fun last next => !less next last
        have hrun := pairwise_extend follows (fun a b c ha hb hc hab hbc =>
          (Bool.not_eq_true' _).mpr (hless.trans ha hb hc ((Bool.not_eq_true' _).mp hab)
            ((Bool.not_eq_true' _).mp hbc))) hy hv
        have hrun := hrun.imp fun h => (Bool.not_eq_true' _).mp h
        refine ⟨x :: y :: (extend follows y v).1,
          (congrArg (x :: y :: ·) (extend_append follows y v)).symm, .refl ?_⟩
        have hmem : ∀ z ∈ (extend follows y v).1, P z :=
          fun z hz => hv z (extend_append follows y v ▸ List.mem_append_left _ hz)
        refine List.pairwise_cons.mpr ⟨List.forall_mem_cons.mpr ⟨Bool.eq_false_iff.mpr hyx, ?_⟩,
          hrun⟩
        intro z hz
        exact hless.trans hx hy (hmem z hz) (Bool.eq_false_iff.mpr hyx)
          (List.rel_of_pairwise_cons hrun hz)

/-- What a run says about itself is true. -/
def Run.Valid (less : α → α → Bool) (run : Run α) : Prop :=
  run.isSorted = true → InOrder less run.elements

/-- The elements of some runs, one after the other. -/
def joined (runs : List (Run α)) : List α :=
  runs.flatMap Run.elements

/-- The elements of the runs on a stack, the deepest one first. -/
def stacked (stack : List (Run α × Nat)) : List α :=
  joined (stack.reverse.map Prod.fst)

@[simp] theorem joined_nil : joined ([] : List (Run α)) = [] :=
  rfl

@[simp] theorem joined_cons (run : Run α) (runs : List (Run α)) :
    joined (run :: runs) = run.elements ++ joined runs :=
  rfl

@[simp] theorem stacked_nil : stacked ([] : List (Run α × Nat)) = [] :=
  rfl

@[simp] theorem stacked_cons (run : Run α) (wanted : Nat) (stack : List (Run α × Nat)) :
    stacked ((run, wanted) :: stack) = stacked stack ++ run.elements := by
  rw [stacked, joined, List.reverse_cons, List.map_append, List.flatMap_append, List.map_singleton,
    List.flatMap_singleton]
  rfl

-- ── Cutting a list into runs ────────────────────────────────────────────────

section Cut

variable {enough fuel : Nat} {eager : Bool} {run : Run α} {rest : List α} {runs : List (Run α)}

/-- A run and what is behind it are the list, whatever the test says. -/
theorem createRun_perm (h : createRun less bytes enough eager v = some (run, rest)) :
    (run.elements ++ rest).Perm v := by
  rw [createRun] at h
  simp only at h
  split at h
  · cases h
    exact findRun_perm less v
  split at h
  · obtain ⟨sorted, hsorted, h⟩ := Option.bind_eq_some_iff.mp h
    cases h
    have hperm := ((sortsList_smallSort less bytes _).perm sorted hsorted).append_right
      (v.drop shortLength)
    rwa [List.take_append_drop] at hperm
  · cases h
    exact .of_eq (List.take_append_drop enough v)

/-- A run takes an element, so that cutting comes to an end. -/
theorem length_lt_of_createRun (henough : 0 < enough) (hv : v ≠ [])
    (h : createRun less bytes enough eager v = some (run, rest)) : rest.length < v.length := by
  have hpos := List.length_pos_iff.mpr hv
  rw [createRun] at h
  simp only at h
  split at h
  · rename_i hlong
    cases h
    rw [Bool.and_eq_true, decide_eq_true_eq, decide_eq_true_eq] at hlong
    have hlength := (findRun_perm less v).length_eq
    rw [List.length_append] at hlength
    omega
  split at h
  · obtain ⟨sorted, -, h⟩ := Option.bind_eq_some_iff.mp h
    cases h
    rw [List.length_drop, shortLength]
    omega
  · cases h
    rw [List.length_drop]
    omega

/-- With the length of the list for fuel a list is cut to its end. -/
theorem cutRuns_eq (henough : 0 < enough) (hfuel : v.length ≤ fuel) :
    cutRuns less bytes enough eager fuel v = cutRuns less bytes enough eager v.length v := by
  induction fuel using Nat.strongRecOn generalizing v with
  | ind fuel ih =>
      cases v with
      | nil => simp only [cutRuns]
      | cons x v =>
          obtain ⟨fuel, rfl⟩ := Nat.exists_eq_add_one_of_ne_zero
            (Nat.ne_of_gt (Nat.lt_of_lt_of_le (Nat.succ_pos _) hfuel))
          rw [List.length_cons, cutRuns, cutRuns]
          refine Option.bind_congr fun ⟨run, rest⟩ hcut => ?_
          have hlt := length_lt_of_createRun henough (List.cons_ne_nil x v) hcut
          rw [List.length_cons] at hlt hfuel
          show (cutRuns less bytes enough eager fuel rest).bind _
            = (cutRuns less bytes enough eager v.length rest).bind _
          rw [ih fuel (by omega) (by omega), ih v.length (by omega) (by omega)]

/-- All runs together are the list, whatever the test says. -/
theorem cutRuns_perm (h : cutRuns less bytes enough eager fuel v = some runs) :
    (joined runs).Perm v := by
  induction fuel generalizing v runs with
  | zero =>
      cases v with
      | nil =>
          rw [cutRuns] at h
          cases h
          exact .refl _
      | cons x v => exact absurd h (by rw [cutRuns]; exact Option.some_ne_none _ ∘ Eq.symm)
  | succ fuel ih =>
      cases v with
      | nil =>
          rw [cutRuns] at h
          cases h
          exact .refl _
      | cons x v =>
          rw [cutRuns] at h
          obtain ⟨⟨run, rest⟩, hrun, h⟩ := Option.bind_eq_some_iff.mp h
          obtain ⟨runs, hruns, h⟩ := Option.bind_eq_some_iff.mp h
          cases h
          exact ((ih hruns).append_left _).trans (createRun_perm hrun)

/-- A list starts with a valid run, which keeps its ties. -/
theorem exists_valid_createRun (bytes enough : Nat) (eager : Bool) (hless : WeakOrder P less)
    (hv : ∀ x ∈ v, P x) :
    ∃ run rest, createRun less bytes enough eager v = some (run, rest) ∧ run.Valid less ∧
      KeepsTies P less v (run.elements ++ rest) := by
  rw [createRun]
  simp only
  split
  · obtain ⟨xs, hxs, harr⟩ := exists_arranges_findRun hless hv
    refine ⟨_, _, rfl, fun _ => harr.inOrder, ?_⟩
    nth_rewrite 1 [hxs]
    exact harr.ties.append_right _
  split
  · obtain ⟨sorted, hsorted, harr⟩ := (sortsList_smallSort less bytes
      (v.take shortLength)).arranges P hless fun x hx => hv x (List.mem_of_mem_take hx)
    refine ⟨_, _, by rw [hsorted]; rfl, fun _ => harr.inOrder, ?_⟩
    have hties := harr.ties.append_right (v.drop shortLength)
    rwa [List.take_append_drop] at hties
  · refine ⟨_, _, rfl, fun h => absurd h Bool.false_ne_true, ?_⟩
    rw [List.take_append_drop]
    exact .refl v

/-- A list is cut into valid runs, which keep its ties. -/
theorem exists_valid_cutRuns (bytes : Nat) (eager : Bool) (hless : WeakOrder P less)
    (henough : 0 < enough)
    (hv : ∀ x ∈ v, P x) (hfuel : v.length ≤ fuel) :
    ∃ runs, cutRuns less bytes enough eager fuel v = some runs ∧
      (∀ run ∈ runs, run.Valid less) ∧ KeepsTies P less v (joined runs) := by
  induction fuel generalizing v with
  | zero =>
      cases v with
      | nil => exact ⟨[], by rw [cutRuns], List.forall_mem_nil _, .refl []⟩
      | cons x v => exact absurd hfuel (Nat.not_succ_le_zero _)
  | succ fuel ih =>
      cases v with
      | nil => exact ⟨[], by rw [cutRuns], List.forall_mem_nil _, .refl []⟩
      | cons x v =>
          obtain ⟨run, rest, hrun, hvalid, hties⟩ :=
            exists_valid_createRun bytes enough eager hless hv
          have hlt := length_lt_of_createRun henough (List.cons_ne_nil x v) hrun
          obtain ⟨runs, hruns, hvalids, hties'⟩ := ih (v := rest)
            (fun y hy => hv y ((createRun_perm hrun).subset (List.mem_append_right _ hy)))
            (by omega)
          refine ⟨run :: runs, ?_, List.forall_mem_cons.mpr ⟨hvalid, hvalids⟩,
            hties.trans (hties'.append_left _)⟩
          rw [cutRuns, hrun]
          show (cutRuns less bytes enough eager fuel rest).bind _ = _
          rw [hruns]
          rfl

end Cut

-- ── Merging runs ────────────────────────────────────────────────────────────

section Merge

variable {quick : List α → Option (List α)} {room depth scale place : Nat}
  {run left right merged : Run α} {runs : List (Run α)} {stack stack' : List (Run α × Nat)}

/-- Two merged lists have the items of both. -/
theorem mergeLists_perm (less : α → α → Bool) (xs ys : List α) :
    (mergeLists less xs ys).Perm (xs ++ ys) := by
  rw [mergeLists]
  split
  · exact List.merge_perm_append _
  · refine (List.reverse_perm _).trans ((List.merge_perm_append _).trans ?_)
    exact (ys.reverse_perm.append xs.reverse_perm).trans List.perm_append_comm

/-- From which side two lists are merged makes no difference. -/
theorem arranges_mergeLists (hless : WeakOrder P less) (hxs : ∀ x ∈ xs, P x)
    (hys : ∀ y ∈ ys, P y) (hx : InOrder less xs) (hy : InOrder less ys) :
    Arranges P less (xs ++ ys) (mergeLists less xs ys) := by
  rw [mergeLists]
  split
  · exact arranges_merge hless hxs hys hx hy
  · rw [merge_reverse hless hxs hys hx hy]
    exact arranges_merge hless hxs hys hx hy

/-- A run that is sorted keeps its items. -/
theorem sorted_perm (hquick : Sorts less quick) (h : run.sorted quick = some w) :
    w.Perm run.elements := by
  rw [Run.sorted] at h
  split at h
  · exact .of_eq (Option.some.inj h).symm
  · exact (hquick run.elements).perm w h

/-- A valid run is sorted, if it is not in order. -/
theorem exists_arranges_sorted (hquick : Sorts less quick) (hless : WeakOrder P less)
    (hrun : ∀ x ∈ run.elements, P x) (hvalid : run.Valid less) :
    ∃ w, run.sorted quick = some w ∧ Arranges P less run.elements w := by
  rw [Run.sorted]
  split
  · rename_i hsorted
    exact ⟨run.elements, rfl, .refl (hvalid hsorted)⟩
  · exact (hquick run.elements).arranges P hless hrun

/-- Two merged runs have the items of both. -/
theorem mergeRuns_perm (hquick : Sorts less quick)
    (h : mergeRuns less quick room left right = some merged) :
    merged.elements.Perm (left.elements ++ right.elements) := by
  rw [mergeRuns] at h
  split at h
  · cases h
    exact .refl _
  · obtain ⟨xs, hxs, h⟩ := Option.bind_eq_some_iff.mp h
    obtain ⟨ys, hys, h⟩ := Option.bind_eq_some_iff.mp h
    cases h
    exact (mergeLists_perm less xs ys).trans
      ((sorted_perm hquick hxs).append (sorted_perm hquick hys))

/-- Valid neighbours are merged into a valid run, which keeps their ties. -/
theorem exists_valid_mergeRuns (room : Nat) (hquick : Sorts less quick) (hless : WeakOrder P less)
    (hl : ∀ x ∈ left.elements, P x) (hr : ∀ x ∈ right.elements, P x)
    (hleft : left.Valid less) (hright : right.Valid less) :
    ∃ merged, mergeRuns less quick room left right = some merged ∧ merged.Valid less ∧
      KeepsTies P less (left.elements ++ right.elements) merged.elements := by
  rw [mergeRuns]
  split
  · exact ⟨_, rfl, fun h => absurd h Bool.false_ne_true, .refl _⟩
  · obtain ⟨xs, hxs, hleft⟩ := exists_arranges_sorted hquick hless hl hleft
    obtain ⟨ys, hys, hright⟩ := exists_arranges_sorted hquick hless hr hright
    have hmerge := arranges_mergeLists hless (hleft.forall_mem hl) (hright.forall_mem hr)
      hleft.inOrder hright.inOrder
    refine ⟨_, by rw [hxs, hys]; rfl, fun _ => hmerge.inOrder, ?_⟩
    exact (hleft.ties.append hright.ties).trans hmerge.ties

/-- At no depth at all the whole stack is merged. -/
theorem collapse_zero (h : collapse less quick room 0 stack run = some (stack', merged)) :
    stack' = [] := by
  induction stack generalizing run with
  | nil =>
      cases h
      rfl
  | cons entry stack ih =>
      rw [collapse, if_pos (Nat.zero_le _)] at h
      obtain ⟨next, -, h⟩ := Option.bind_eq_some_iff.mp h
      exact ih h

/-- Collapsing the stack keeps the items of the stack and the run. -/
theorem collapse_perm (hquick : Sorts less quick)
    (h : collapse less quick room depth stack run = some (stack', merged)) :
    (stacked stack' ++ merged.elements).Perm (stacked stack ++ run.elements) := by
  induction stack generalizing run with
  | nil =>
      cases h
      exact .refl _
  | cons entry stack ih =>
      rw [collapse] at h
      split at h
      · obtain ⟨next, hnext, h⟩ := Option.bind_eq_some_iff.mp h
        rw [stacked_cons, List.append_assoc]
        exact (ih h).trans ((mergeRuns_perm hquick hnext).append_left _)
      · cases h
        exact .refl _

/-- Merging valid runs on the stack keeps them valid, and the ties of what they hold in all. -/
theorem exists_valid_collapse (room depth : Nat) (hquick : Sorts less quick)
    (hless : WeakOrder P less)
    (hmem : ∀ x ∈ stacked stack ++ run.elements, P x)
    (hstack : ∀ entry ∈ stack, entry.1.Valid less) (hrun : run.Valid less) :
    ∃ stack' merged, collapse less quick room depth stack run = some (stack', merged) ∧
      (∀ entry ∈ stack', entry.1.Valid less) ∧ merged.Valid less ∧
      KeepsTies P less (stacked stack ++ run.elements) (stacked stack' ++ merged.elements) := by
  induction stack generalizing run with
  | nil => exact ⟨[], run, rfl, List.forall_mem_nil _, hrun, .refl _⟩
  | cons entry stack ih =>
      rw [collapse]
      split
      · obtain ⟨hentry, hstack⟩ := List.forall_mem_cons.mp hstack
        rw [stacked_cons, List.append_assoc] at hmem
        obtain ⟨hmem, hpair⟩ := List.forall_mem_append.mp hmem
        obtain ⟨hleft, hright⟩ := List.forall_mem_append.mp hpair
        obtain ⟨next, hnext, hvalid, hties⟩ :=
          exists_valid_mergeRuns room hquick hless hleft hright hentry hrun
        have hnextMem : ∀ x ∈ next.elements, P x :=
          fun x hx => hpair x ((mergeRuns_perm hquick hnext).subset hx)
        obtain ⟨stack', merged, hcollapse, hstack', hmerged, hkeeps⟩ :=
          ih (List.forall_mem_append.mpr ⟨hmem, hnextMem⟩) hstack hvalid
        refine ⟨stack', merged, by rw [hnext]; exact hcollapse, hstack', hmerged, ?_⟩
        rw [stacked_cons, List.append_assoc]
        exact (hties.append_left _).trans hkeeps
      · exact ⟨_, _, rfl, hstack, hrun, .refl _⟩

/-- Merging all runs keeps the items of the stack, the run and the runs behind. -/
theorem mergeAll_perm (hquick : Sorts less quick)
    (h : mergeAll less quick room scale place stack run runs = some merged) :
    merged.elements.Perm (stacked stack ++ run.elements ++ joined runs) := by
  induction runs generalizing place stack run with
  | nil =>
      rw [mergeAll] at h
      obtain ⟨⟨stack', last⟩, hcollapse, rfl⟩ := Option.map_eq_some_iff.mp h
      have hperm := collapse_perm hquick hcollapse
      rw [collapse_zero hcollapse] at hperm
      simpa using hperm
  | cons next runs ih =>
      rw [mergeAll] at h
      obtain ⟨⟨stack', last⟩, hcollapse, h⟩ := Option.bind_eq_some_iff.mp h
      refine (ih h).trans ?_
      rw [stacked_cons, joined_cons, List.append_assoc _ next.elements]
      exact (collapse_perm hquick hcollapse).append_right _

/-- Merging valid runs gives a valid one that keeps their ties. The induction is on the runs that
    are still behind. -/
theorem exists_valid_mergeAll (room scale place : Nat) (hquick : Sorts less quick)
    (hless : WeakOrder P less)
    (hmem : ∀ x ∈ stacked stack ++ run.elements ++ joined runs, P x)
    (hstack : ∀ entry ∈ stack, entry.1.Valid less) (hrun : run.Valid less)
    (hruns : ∀ run ∈ runs, run.Valid less) :
    ∃ merged, mergeAll less quick room scale place stack run runs = some merged ∧
      merged.Valid less ∧
      KeepsTies P less (stacked stack ++ run.elements ++ joined runs) merged.elements := by
  induction runs generalizing place stack run with
  | nil =>
      rw [joined_nil, List.append_nil] at hmem ⊢
      obtain ⟨stack', merged, hcollapse, -, hmerged, hties⟩ :=
        exists_valid_collapse room 0 hquick hless hmem hstack hrun
      rw [collapse_zero hcollapse, stacked_nil, List.nil_append] at hties
      exact ⟨merged, by rw [mergeAll, hcollapse]; rfl, hmerged, hties⟩
  | cons next runs ih =>
      obtain ⟨hnext, hruns⟩ := List.forall_mem_cons.mp hruns
      obtain ⟨hbefore, hafter⟩ := List.forall_mem_append.mp hmem
      rw [mergeAll]
      simp only
      obtain ⟨stack', last, hcollapse, hstack', hlast, hties⟩ :=
        exists_valid_collapse room (mergeDepth scale (place - run.elements.length) place
          (place + next.elements.length)) hquick hless hbefore hstack hrun
      have hbefore' : ∀ x ∈ stacked stack' ++ last.elements, P x :=
        fun x hx => hbefore x ((collapse_perm hquick hcollapse).subset hx)
      have hregroup : ∀ front : List α, front ++ next.elements ++ joined runs
          = front ++ joined (next :: runs) := fun _ => List.append_assoc ..
      have hstacked : ∀ entry ∈ (last, mergeDepth scale (place - run.elements.length) place
          (place + next.elements.length)) :: stack', entry.1.Valid less :=
        List.forall_mem_cons.mpr ⟨hlast, hstack'⟩
      obtain ⟨merged, hmerge, hmerged, hkeeps⟩ := ih (place + next.elements.length)
        (by rw [stacked_cons, hregroup]; exact List.forall_mem_append.mpr ⟨hbefore', hafter⟩)
        hstacked hnext hruns
      refine ⟨merged, by rw [hcollapse]; exact hmerge, hmerged, ?_⟩
      rw [stacked_cons, hregroup] at hkeeps
      exact (hties.append_right _).trans hkeeps

end Merge

-- ── The sort ────────────────────────────────────────────────────────────────

/-- A run that is long enough is not empty. -/
theorem enoughFor_pos (hv : v ≠ []) : 0 < enoughFor v.length := by
  have hpos := List.length_pos_iff.mpr hv
  rw [enoughFor]
  split
  · omega
  · rename_i hlong
    have hlog : 2 ≤ v.length.log2 := (Nat.le_log2 (by omega)).mpr (by omega)
    have hpow : 2 ^ 1 ≤ 1 <<< ((1 + v.length.log2) / 2) := by
      rw [Nat.one_shiftLeft]
      exact Nat.pow_le_pow_right (Nat.succ_pos 1) (by omega)
    exact Nat.div_pos (hpow.trans (Nat.le_add_right _ _)) (Nat.succ_pos 1)

/-- Sorting run by run sorts, if the sort for the parts that are left unsorted does. -/
theorem sorts_sortRuns {quick : List α → Option (List α)} (hquick : Sorts less quick)
    (eager : Bool) : Sorts less (sortRuns less bytes quick eager) := by
  intro v
  refine ⟨fun w h => ?_, fun P hless hv => ?_⟩
  · obtain ⟨runs, hruns, h⟩ := Option.bind_eq_some_iff.mp h
    have hcut := cutRuns_perm hruns
    split at h
    · exact .of_eq (Option.some.inj h).symm
    · obtain ⟨run, hmerge, h⟩ := Option.bind_eq_some_iff.mp h
      exact (sorted_perm hquick h).trans ((mergeAll_perm hquick hmerge).trans hcut)
  · cases v with
    | nil => exact ⟨[], by simp [sortRuns, cutRuns], .refl .nil⟩
    | cons x v =>
        obtain ⟨runs, hruns, hvalid, hties⟩ := exists_valid_cutRuns bytes eager
          hless (enoughFor_pos (List.cons_ne_nil x v)) hv (Nat.le_refl _)
        have hcut := cutRuns_perm hruns
        have hmem : ∀ y ∈ joined runs, P y := fun y hy => hv y (hcut.subset hy)
        cases runs with
        | nil => exact absurd hcut.nil_eq (List.cons_ne_nil x v).symm
        | cons first runs =>
            have hmem : ∀ y ∈ stacked [] ++ first.elements ++ joined runs, P y := hmem
            obtain ⟨hfirst, hvalid⟩ := List.forall_mem_cons.mp hvalid
            have hstack : ∀ entry ∈ ([] : List (Run α × Nat)), entry.1.Valid less :=
              List.forall_mem_nil _
            obtain ⟨run, hmerge, hrun, hkeeps⟩ := exists_valid_mergeAll
              (roomFor bytes (x :: v).length) ((1 <<< 62 + (x :: v).length - 1) / (x :: v).length)
              first.elements.length hquick hless hmem hstack hfirst hvalid
            have hperm := (mergeAll_perm hquick hmerge).trans hcut
            obtain ⟨w, hw, harr⟩ := exists_arranges_sorted hquick hless
              (fun y hy => hv y (hperm.subset hy)) hrun
            refine ⟨w, ?_, .of_keepsTies hperm (hties.trans hkeeps) harr⟩
            rw [sortRuns, hruns]
            show (mergeAll _ _ _ _ _ _ _ _).bind _ = _
            rw [hmerge]
            exact hw

/-- The quicksort keeps the items and, under a weak order, returns and arranges them. -/
theorem sorts_stableQuicksort (less : α → α → Bool) (bytes : Nat) :
    Sorts less (stableQuicksort less bytes) := by
  intro v
  rw [stableQuicksort]
  exact sorts_quicksort (sorts_sortRuns (sortsList_smallSort less bytes) true) _ v

/-- Whatever the comparison is, a sort arranges by it if it is that of an order, and else gives
    its elements rearranged if it gives a list. -/
theorem sortsList_stableSort (bytes : Nat) (cmp : α → α → Ordering) (v : List α) :
    SortsList (fun x y => cmp x y == .lt) v (stableSort bytes cmp v) := by
  rw [stableSort]
  split
  · refine ⟨fun w h => ?_, fun P hless hv => ?_⟩
    · rw [← Option.some.inj h]
      exact insertAll_perm _ [] v
    · exact ⟨_, rfl, arranges_insertAll hless (List.forall_mem_nil _) hv .nil⟩
  · exact sorts_sortRuns (sorts_stableQuicksort _ bytes) _ v

/-- **A sort rearranges.** Whatever the comparison is, what a sort gives has the same elements. -/
theorem stableSort_perm {cmp : α → α → Ordering} (h : stableSort bytes cmp v = some w) :
    w.Perm v :=
  (sortsList_stableSort bytes cmp v).perm w h

/-- **A sort by a total preorder gives the stable arrangement**, whatever the size of the
    elements is: the comparison may contradict itself elsewhere, but not on the elements. -/
theorem stableSort_eq_some {cmp : α → α → Ordering}
    (hcmp : Std.TransCmp fun a b : { x // x ∈ v } => cmp a.1 b.1) :
    stableSort bytes cmp v = some (v.mergeSort fun a b => cmp a b != .gt) := by
  obtain ⟨w, hw, harr⟩ := (sortsList_stableSort bytes cmp v).arranges (· ∈ v)
    (weakOrder_of_transCmp hcmp) fun _ h => h
  rw [hw, harr.unique (weakOrder_of_transCmp hcmp) (fun _ h => h) (arranges_mergeSort hcmp)]

/-- **A short list is always sorted**: up to twenty elements no contradiction is noticed. -/
theorem isSome_stableSort_of_length_le {cmp : α → α → Ordering} (h : v.length ≤ 20) :
    (stableSort bytes cmp v).isSome = true := by
  rw [stableSort, if_pos h]
  rfl

/-- A short list is sorted by how its members compare, whatever the size of the elements is. -/
theorem stableSort_congr_of_length_le {bytes' : Nat} {cmp cmp' : α → α → Ordering}
    (hlength : v.length ≤ 20) (h : ∀ a ∈ v, ∀ b ∈ v, cmp a b = cmp' a b) :
    stableSort bytes cmp v = stableSort bytes' cmp' v := by
  rw [stableSort, stableSort, if_pos hlength, if_pos hlength]
  refine congrArg some (insertAll_congr fun a ha b hb => ?_)
  rw [h a ha b hb]

end DocQuery.Sorting
