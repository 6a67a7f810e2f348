import DocQuery.Proofs.Sorting.Order

/-!
# Small sorts give the sorted list, or nothing

Whatever the test is, a small sort gives its elements rearranged. If the test is that of an order
it gives a list, and that list arranges the elements: insertion moves an element in front of those
it comes before (`arranges_place`), and so does a merge (`arranges_merge`). The two ends of a merge
from both sides take what the whole merge has there (`Advances.merge_eq`), and they cannot pass
each other: an element that both had taken would have to come before and after another one
(`mergeHalves_eq_some`).

* `sortsList_smallSort` — a small sort sorts.
-/

namespace DocQuery.Sorting

variable {α : Type} {P : α → Prop} {less : α → α → Bool} {xs ys v w : List α} {x y : α}

/-- What is given for a list is the list rearranged; and if the test is that of an order, the list
    arranged is given. -/
structure SortsList (less : α → α → Bool) (xs : List α) (result : Option (List α)) : Prop where
  perm : ∀ ys, result = some ys → ys.Perm xs
  arranges : ∀ P, WeakOrder P less → (∀ x ∈ xs, P x) → ∃ ys, result = some ys ∧
    Arranges P less xs ys

-- ── Insertion ───────────────────────────────────────────────────────────────

/-- A placed item and the others are the same items. -/
theorem place_perm (less : α → α → Bool) (x : α) (xs : List α) :
    (place less x xs).Perm (x :: xs) := by
  induction xs with
  | nil => exact .refl _
  | cons y xs ih =>
      rw [place]
      split
      · exact (ih.cons y).trans (.swap x y xs)
      · exact .refl _

/-- An element is placed in front of those of a descending list that do not come after it. -/
theorem exists_place (less : α → α → Bool) (x : α) (xs : List α) : ∃ front back,
    xs = front ++ back ∧ place less x xs = front ++ x :: back ∧
      (∀ y ∈ front, less x y = true) ∧ ∀ y ∈ back.head?, less x y = false := by
  induction xs with
  | nil => exact ⟨[], [], rfl, rfl, List.forall_mem_nil _, fun _ h => nomatch h⟩
  | cons y xs ih =>
      rw [place]
      split
      · rename_i hxy
        obtain ⟨front, back, rfl, hplace, hfront, hback⟩ := ih
        exact ⟨y :: front, back, rfl, congrArg _ hplace, List.forall_mem_cons.mpr ⟨hxy, hfront⟩,
          hback⟩
      · rename_i hxy
        refine ⟨[], y :: xs, rfl, rfl, List.forall_mem_nil _, ?_⟩
        rintro z ⟨⟩
        exact Bool.eq_false_iff.mpr hxy

/-- An element placed behind a list in order arranges the two. -/
theorem arranges_place (hless : WeakOrder P less) (hxs : ∀ y ∈ xs, P y) (hx : P x)
    (h : InOrder less xs.reverse) :
    Arranges P less (xs.reverse ++ [x]) (place less x xs).reverse := by
  obtain ⟨front, back, rfl, hplace, hfront, hback⟩ := exists_place less x xs
  have hPfront : ∀ y ∈ front.reverse, P y :=
    fun y hy => hxs y (List.mem_append_left _ (List.mem_reverse.mp hy))
  have hPback : ∀ y ∈ back, P y := fun y hy => hxs y (List.mem_append_right _ hy)
  rw [List.reverse_append, inOrder_append] at h
  have hreverse : (place less x (front ++ back)).reverse
      = back.reverse ++ ([x] ++ front.reverse) := by
    rw [hplace, List.reverse_append, List.reverse_cons, List.append_assoc]
  rw [hreverse, List.reverse_append, List.append_assoc]
  refine ⟨(List.perm_append_comm).append_left _, ?_, ?_⟩
  · refine inOrder_append.mpr ⟨h.1, inOrder_append.mpr ⟨List.pairwise_singleton _ _, h.2.1, ?_⟩, ?_⟩
    · intro y hy z hz
      rw [List.mem_singleton.mp hy]
      exact hless.asymm hx (hPfront z hz) (hfront z (List.mem_reverse.mp hz))
    · intro y hy z hz
      rcases List.mem_append.mp hz with hz | hz
      · -- the first element behind the place bounds all that are behind it
        rw [List.mem_singleton.mp hz]
        cases back with
        | nil => exact absurd hy List.not_mem_nil
        | cons b back =>
            have hb := hback b rfl
            rcases List.mem_cons.mp (List.mem_reverse.mp hy) with rfl | hy
            · exact hb
            · have hyb := List.rel_of_pairwise_cons (List.pairwise_reverse.mp h.1) hy
              exact hless.trans (hPback y (List.mem_cons_of_mem _ hy))
                (hPback b List.mem_cons_self) hx hyb hb
      · exact h.2.2 y hy z hz
  · refine (keepsTies_swap hless hPfront (List.forall_mem_singleton.mpr hx) ?_).append_left _
    intro y hy z hz
    rw [List.mem_singleton.mp hz]
    exact hfront y (List.mem_reverse.mp hy)

theorem insertAll_cons (less : α → α → Bool) (xs : List α) (y : α) (ys : List α) :
    insertAll less xs (y :: ys) = insertAll less (place less y xs.reverse).reverse ys := by
  rw [insertAll, insertAll, List.foldl_cons, List.reverse_reverse]

/-- Inserted items and the sorted ones are the same items. -/
theorem insertAll_perm (less : α → α → Bool) (xs ys : List α) :
    (insertAll less xs ys).Perm (xs ++ ys) := by
  induction ys generalizing xs with
  | nil => exact .of_eq (by rw [insertAll, List.foldl_nil, List.reverse_reverse, List.append_nil])
  | cons y ys ih =>
      rw [insertAll_cons]
      have hplace : (place less y xs.reverse).reverse.Perm (xs ++ [y]) :=
        (List.reverse_perm _).trans ((place_perm less y xs.reverse).trans
          ((xs.reverse_perm.cons y).trans (List.perm_append_singleton y xs).symm))
      refine (ih _).trans ((hplace.append_right ys).trans (.of_eq ?_))
      rw [List.append_assoc, List.singleton_append]

/-- An element is placed by how it compares with those that are there. -/
theorem place_congr {less' : α → α → Bool} {x : α} {xs : List α}
    (h : ∀ y ∈ xs, less x y = less' x y) : place less x xs = place less' x xs := by
  induction xs with
  | nil => rfl
  | cons y xs ih =>
      obtain ⟨hy, hxs⟩ := List.forall_mem_cons.mp h
      rw [place, place, hy, ih hxs]

/-- Insertion depends on how the test compares the members only. -/
theorem insertAll_congr {less' : α → α → Bool} {xs ys : List α}
    (h : ∀ x ∈ xs ++ ys, ∀ y ∈ xs ++ ys, less x y = less' x y) :
    insertAll less xs ys = insertAll less' xs ys := by
  induction ys generalizing xs with
  | nil => rfl
  | cons y ys ih =>
      have hplace : place less y xs.reverse = place less' y xs.reverse :=
        place_congr fun x hx => h y (List.mem_append_right _ List.mem_cons_self) x
          (List.mem_append_left _ (List.mem_reverse.mp hx))
      have hperm : (y :: xs.reverse).Perm (y :: xs) := xs.reverse_perm.cons y
      have hmem : ∀ x ∈ (place less' y xs.reverse).reverse ++ ys, x ∈ xs ++ y :: ys := by
        intro x hx
        refine List.perm_middle.mem_iff.mpr ?_
        rcases List.mem_append.mp hx with hx | hx
        · have hx :=
            ((place_perm less' y xs.reverse).trans hperm).mem_iff.mp (List.mem_reverse.mp hx)
          exact List.mem_append_left ys hx
        · exact List.mem_append_right (y :: xs) hx
      rw [insertAll_cons, insertAll_cons, hplace]
      exact ih fun x hx z hz => h x (hmem x hx) z (hmem z hz)

/-- Elements inserted behind a list in order arrange the two. -/
theorem arranges_insertAll (hless : WeakOrder P less) (hxs : ∀ x ∈ xs, P x) (hys : ∀ y ∈ ys, P y)
    (h : InOrder less xs) : Arranges P less (xs ++ ys) (insertAll less xs ys) := by
  induction ys generalizing xs with
  | nil =>
      rw [insertAll, List.foldl_nil, List.reverse_reverse, List.append_nil]
      exact .refl h
  | cons y ys ih =>
      obtain ⟨hy, hys⟩ := List.forall_mem_cons.mp hys
      have hback : ∀ x ∈ xs.reverse, P x := fun x hx => hxs x (List.mem_reverse.mp hx)
      have hplace := arranges_place hless hback hy (by rw [List.reverse_reverse]; exact h)
      rw [List.reverse_reverse] at hplace
      have hmem := hplace.forall_mem (List.forall_mem_append.mpr
        ⟨hxs, List.forall_mem_singleton.mpr hy⟩)
      rw [insertAll_cons, List.append_cons]
      exact .of_keepsTies (hplace.perm.append_right ys) (hplace.ties.append_right ys)
        (ih hmem hys hplace.inOrder)

-- ── Merging ─────────────────────────────────────────────────────────────────

/-- A merge of two lists in order arranges the one behind the other. -/
theorem arranges_merge (hless : WeakOrder P less) (hxs : ∀ x ∈ xs, P x) (hys : ∀ y ∈ ys, P y)
    (hx : InOrder less xs) (hy : InOrder less ys) :
    Arranges P less (xs ++ ys) (xs.merge ys fun x y => !less y x) := by
  induction xs generalizing ys with
  | nil =>
      rw [List.nil_merge]
      exact .refl hy
  | cons x xs ihx =>
      induction ys with
      | nil =>
          rw [List.merge_right, List.append_nil]
          exact .refl hx
      | cons y ys ihy =>
          obtain ⟨hPx, hPxs⟩ := List.forall_mem_cons.mp hxs
          obtain ⟨hPy, hPys⟩ := List.forall_mem_cons.mp hys
          obtain ⟨hxle, hx'⟩ := List.pairwise_cons.mp hx
          obtain ⟨hyle, hy'⟩ := List.pairwise_cons.mp hy
          rw [List.cons_merge_cons]
          cases hyx : less y x with
          | false =>
              refine Arranges.append (.refl (List.pairwise_singleton _ x)) (ihx hPxs hys hx' hy) ?_
              intro z hz u hu
              rw [List.mem_singleton.mp hz]
              rcases List.mem_append.mp hu with hu | hu
              · exact hxle u hu
              rcases List.mem_cons.mp hu with rfl | hu
              · exact hyx
              · exact hless.trans hPx hPy (hPys u hu) hyx (hyle u hu)
          | true =>
              -- the element comes before all of the first list, and passes it
              have hlt : ∀ z ∈ x :: xs, less y z = true := by
                refine List.forall_mem_cons.mpr ⟨hyx, ?_⟩
                exact fun z hz => hless.lt_of_lt_of_le hPy hPx (hPxs z hz) hyx (hxle z hz)
              have hswap : KeepsTies P less (x :: xs ++ y :: ys) ([y] ++ (x :: xs ++ ys)) := by
                rw [List.append_cons, ← List.append_assoc]
                refine (keepsTies_swap hless hxs
                  (List.forall_mem_singleton.mpr hPy) ?_).append_right _
                intro z hz u hu
                rw [List.mem_singleton.mp hu]
                exact hlt z hz
              refine .of_keepsTies List.perm_middle.symm hswap
                (Arranges.append (.refl (List.pairwise_singleton _ y)) (ihy hPys hy') ?_)
              intro z hz u hu
              rw [List.mem_singleton.mp hz]
              rcases List.mem_append.mp (show u ∈ (x :: xs) ++ ys from hu) with hu | hu
              · exact hless.asymm hPy (hxs u hu) (hlt u hu)
              · exact hyle u hu

/-- A merge from behind gives what a merge from the front gives. -/
theorem merge_reverse (hless : WeakOrder P less) (hxs : ∀ x ∈ xs, P x) (hys : ∀ y ∈ ys, P y)
    (hx : InOrder less xs) (hy : InOrder less ys) :
    (ys.reverse.merge xs.reverse fun y x => !less y x).reverse
      = xs.merge ys fun x y => !less y x := by
  have hyback : InOrder (fun x y => less y x) ys.reverse := InOrder.reverse hy
  have hxback : InOrder (fun x y => less y x) xs.reverse := InOrder.reverse hx
  have hback := (arranges_merge hless.flip (fun y h => hys y (List.mem_reverse.mp h))
    (fun x h => hxs x (List.mem_reverse.mp h)) hyback hxback).reverse
  rw [List.reverse_append, List.reverse_reverse, List.reverse_reverse] at hback
  exact hback.unique hless (List.forall_mem_append.mpr ⟨hxs, hys⟩)
    (arranges_merge hless hxs hys hx hy)

-- ── Some steps of a merge ───────────────────────────────────────────────────

/-- Some steps of a merge of two lists: what is taken in all, what of each list, and what is left
    of each. -/
inductive Advances (less : α → α → Bool) :
    List α → List α → List α → List α → List α → List α → List α → Prop where
  | stop (xs ys : List α) : Advances less xs ys [] [] [] xs ys
  | right {x y : α} {xs ys taken xs₁ ys₁ xs₂ ys₂ : List α} : less y x = true →
      Advances less (x :: xs) ys taken xs₁ ys₁ xs₂ ys₂ →
      Advances less (x :: xs) (y :: ys) (y :: taken) xs₁ (y :: ys₁) xs₂ ys₂
  | left {x y : α} {xs ys taken xs₁ ys₁ xs₂ ys₂ : List α} : less y x = false →
      Advances less xs (y :: ys) taken xs₁ ys₁ xs₂ ys₂ →
      Advances less (x :: xs) (y :: ys) (x :: taken) (x :: xs₁) ys₁ xs₂ ys₂

/-- A merge for a number of steps makes so many, unless a list is used up. -/
theorem exists_advance (less : α → α → Bool) (n : Nat) (xs ys : List α) :
    ∃ taken xs₁ ys₁ xs₂ ys₂, advance less n xs ys = (taken, xs₂, ys₂) ∧
      Advances less xs ys taken xs₁ ys₁ xs₂ ys₂ ∧
      (n ≤ xs.length → n ≤ ys.length → taken.length = n) := by
  induction n generalizing xs ys with
  | zero => exact ⟨[], [], [], xs, ys, by rw [advance]; simp, .stop xs ys, fun _ _ => rfl⟩
  | succ n ih =>
      cases xs with
      | nil =>
          refine ⟨[], [], [], [], ys, by rw [advance]; simp, .stop [] ys, ?_⟩
          exact fun h => absurd h (Nat.not_succ_le_zero n)
      | cons x xs =>
          cases ys with
          | nil =>
              refine ⟨[], [], [], x :: xs, [], by rw [advance]; simp, .stop (x :: xs) [], ?_⟩
              exact fun _ h => absurd h (Nat.not_succ_le_zero n)
          | cons y ys =>
              rw [advance]
              cases hyx : less y x with
              | true =>
                  obtain ⟨taken, xs₁, ys₁, xs₂, ys₂, heq, h, hlength⟩ := ih (x :: xs) ys
                  refine ⟨y :: taken, xs₁, y :: ys₁, xs₂, ys₂, by rw [heq]; rfl, .right hyx h, ?_⟩
                  intro hx hy
                  rw [List.length_cons, hlength (by omega) (by simpa using hy)]
              | false =>
                  obtain ⟨taken, xs₁, ys₁, xs₂, ys₂, heq, h, hlength⟩ := ih xs (y :: ys)
                  refine ⟨x :: taken, x :: xs₁, ys₁, xs₂, ys₂, by rw [heq]; rfl, .left hyx h, ?_⟩
                  intro hx hy
                  rw [List.length_cons, hlength (by simpa using hx) (by omega)]

namespace Advances

variable {taken xs₁ ys₁ xs₂ ys₂ : List α}

/-- A merge takes from the front of the left list. -/
theorem append_left (h : Advances less xs ys taken xs₁ ys₁ xs₂ ys₂) : xs = xs₁ ++ xs₂ := by
  induction h with
  | stop => rfl
  | right _ _ ih => exact ih
  | left _ _ ih => exact congrArg _ ih

theorem append_right (h : Advances less xs ys taken xs₁ ys₁ xs₂ ys₂) : ys = ys₁ ++ ys₂ := by
  induction h with
  | stop => rfl
  | right _ _ ih => exact congrArg _ ih
  | left _ _ ih => exact ih

/-- What it took is what is missing on both sides. -/
theorem perm (h : Advances less xs ys taken xs₁ ys₁ xs₂ ys₂) : taken.Perm (xs₁ ++ ys₁) := by
  induction h with
  | stop => exact .refl _
  | right _ _ ih => exact (ih.cons _).trans List.perm_middle.symm
  | left _ _ ih => exact ih.cons _

/-- The steps are the first ones of the whole merge. -/
theorem merge_eq (h : Advances less xs ys taken xs₁ ys₁ xs₂ ys₂) :
    (xs.merge ys fun x y => !less y x) = taken ++ xs₂.merge ys₂ fun x y => !less y x := by
  induction h with
  | stop => rfl
  | right hyx _ ih => rw [List.cons_merge_cons, hyx, ih]; rfl
  | left hyx _ ih => rw [List.cons_merge_cons, hyx, ih]; rfl

/-- In lists in order, what is taken of the first one does not come after what is left of the
    second one, and what is left of the first one comes after what is taken of the second one. -/
theorem separates (h : Advances less xs ys taken xs₁ ys₁ xs₂ ys₂) (hless : WeakOrder P less)
    (hxs : ∀ x ∈ xs, P x) (hys : ∀ y ∈ ys, P y) (hx : InOrder less xs) (hy : InOrder less ys) :
    (∀ x ∈ xs₁, ∀ y ∈ ys₂, less y x = false) ∧ ∀ x ∈ xs₂, ∀ y ∈ ys₁, less y x = true := by
  induction h with
  | stop xs ys => exact ⟨List.forall_mem_nil _, fun _ _ => List.forall_mem_nil _⟩
  | @right x y xs ys _ xs₁ _ xs₂ _ hyx h ih =>
      obtain ⟨hPy, hPys⟩ := List.forall_mem_cons.mp hys
      obtain ⟨hbefore, hafter⟩ := ih hxs hPys hx (List.pairwise_cons.mp hy).2
      refine ⟨hbefore, ?_⟩
      intro z hz u hu
      rcases List.mem_cons.mp hu with rfl | hu
      · have hmem : z ∈ x :: xs := h.append_left ▸ List.mem_append_right _ hz
        rcases List.mem_cons.mp hmem with rfl | hz
        · exact hyx
        · obtain ⟨hPx, hPxs⟩ := List.forall_mem_cons.mp hxs
          exact hless.lt_of_lt_of_le hPy hPx (hPxs z hz) hyx (List.rel_of_pairwise_cons hx hz)
      · exact hafter z hz u hu
  | @left x y xs ys _ _ ys₁ _ ys₂ hyx h ih =>
      obtain ⟨hPx, hPxs⟩ := List.forall_mem_cons.mp hxs
      obtain ⟨hbefore, hafter⟩ := ih hPxs hys (List.pairwise_cons.mp hx).2 hy
      refine ⟨?_, hafter⟩
      intro z hz u hu
      rcases List.mem_cons.mp hz with rfl | hz
      · have hmem : u ∈ y :: ys := h.append_right ▸ List.mem_append_right _ hu
        rcases List.mem_cons.mp hmem with rfl | hu
        · exact hyx
        · obtain ⟨hPy, hPys⟩ := List.forall_mem_cons.mp hys
          exact hless.trans hPx hPy (hPys u hu) hyx (List.rel_of_pairwise_cons hy hu)
      · exact hbefore z hz u hu

end Advances

-- ── Merging from both ends ──────────────────────────────────────────────────

section Halves

variable {a b c d : List α}

/-- A list of at most one element is given by its elements. -/
theorem eq_of_perm_of_length_le (h : xs.Perm ys) (hlength : xs.length ≤ 1) : xs = ys := by
  cases xs with
  | nil => exact h.nil_eq
  | cons x xs =>
      rw [List.length_cons] at hlength
      obtain rfl := List.eq_nil_of_length_eq_zero (show xs.length = 0 by omega)
      exact h.singleton_eq

/-- What is in front of a place is in front of a later one. -/
theorem prefix_drop (h : a ++ b = c ++ d) (hlength : a.length ≤ c.length) :
    c = a ++ c.drop a.length := by
  have htake : c.take a.length = a := by
    have hfront : (c ++ d).take a.length = c.take a.length := List.take_append_of_le_length hlength
    rw [← hfront, ← h, List.take_left]
  calc c = c.take a.length ++ c.drop a.length := (List.take_append_drop _ _).symm
    _ = a ++ c.drop a.length := by rw [htake]

/-- A place in front of another one has an element between them. -/
theorem exists_mem_of_length_lt (h : a ++ b = c ++ d) (hlength : a.length < c.length) :
    ∃ x, x ∈ c ∧ x ∈ b := by
  have hc := prefix_drop h hlength.le
  rw [hc, List.append_assoc] at h
  have hb := List.append_cancel_left h
  obtain ⟨x, hx⟩ := List.exists_mem_of_ne_nil (c.drop a.length) (by simpa using hlength)
  exact ⟨x, List.mem_of_mem_drop hx, hb ▸ List.mem_append_left _ hx⟩

/-- The halves of a list, merged from both ends: what either end takes, and when they meet. -/
theorem exists_mergeHalves (less : α → α → Bool) (v : List α) :
    ∃ front back l₁ r₁ l₂ r₂ l₃ r₃ l₄ r₄,
      Advances less (v.take (v.length / 2)) (v.drop (v.length / 2)) front l₁ r₁ l₂ r₂ ∧
      Advances (fun x y => less y x) (v.drop (v.length / 2)).reverse (v.take (v.length / 2)).reverse
        back r₄ l₄ r₃ l₃ ∧
      front.length = v.length / 2 ∧ back.length = v.length / 2 ∧
      mergeHalves less v = if l₁.length ≤ l₃.length ∧ r₁.length ≤ r₃.length then
          some (front ++ (l₃.reverse.drop l₁.length ++ r₃.reverse.drop r₁.length) ++ back.reverse)
        else none := by
  obtain ⟨front, l₁, r₁, l₂, r₂, hfront, hup, hfrontLength⟩ :=
    exists_advance less (v.length / 2) (v.take (v.length / 2)) (v.drop (v.length / 2))
  obtain ⟨back, r₄, l₄, r₃, l₃, hback, hdown, hbackLength⟩ :=
    exists_advance (fun x y => less y x) (v.length / 2) (v.drop (v.length / 2)).reverse
      (v.take (v.length / 2)).reverse
  have hleft : (v.take (v.length / 2)).length = v.length / 2 := by
    rw [List.length_take]
    omega
  have hright : v.length / 2 ≤ (v.drop (v.length / 2)).length := by
    rw [List.length_drop]
    omega
  refine ⟨front, back, l₁, r₁, l₂, r₂, l₃, r₃, l₄, r₄, hup, hdown,
    hfrontLength hleft.ge hright, hbackLength (by rwa [List.length_reverse])
      (by rw [List.length_reverse, hleft]), ?_⟩
  have hl : (v.take (v.length / 2)).length - l₂.length = l₁.length := by
    rw [hup.append_left, List.length_append, Nat.add_sub_cancel]
  have hr : (v.drop (v.length / 2)).length - r₂.length = r₁.length := by
    rw [hup.append_right, List.length_append, Nat.add_sub_cancel]
  rw [mergeHalves]
  simp only [hfront, hback, hl, hr, Bool.and_eq_true, decide_eq_true_eq]

open Classical in
/-- What the ends have taken when they meet is all there is. -/
theorem mergeHalves_perm (h : mergeHalves less v = some w) : w.Perm v := by
  obtain ⟨front, back, l₁, r₁, l₂, r₂, l₃, r₃, l₄, r₄, hup, hdown, -, -, heq⟩ :=
    exists_mergeHalves less v
  rw [heq] at h
  split at h
  · rename_i hmeet
    rw [← Option.some.inj h]
    have hl : v.take (v.length / 2) = l₃.reverse ++ l₄.reverse := by
      rw [← List.reverse_append, ← hdown.append_right, List.reverse_reverse]
    have hr : v.drop (v.length / 2) = r₃.reverse ++ r₄.reverse := by
      rw [← List.reverse_append, ← hdown.append_left, List.reverse_reverse]
    have hl₃ := prefix_drop (hup.append_left.symm.trans hl) (by simpa using hmeet.1)
    have hr₃ := prefix_drop (hup.append_right.symm.trans hr) (by simpa using hmeet.2)
    refine List.perm_iff_count.mpr fun x => ?_
    have htaken := hup.perm.count_eq x
    have htaken' := hdown.perm.count_eq x
    have hv := congrArg (List.count x) (List.take_append_drop (v.length / 2) v)
    have hl := congrArg (List.count x) hl
    have hr := congrArg (List.count x) hr
    have hl₃ := congrArg (List.count x) hl₃
    have hr₃ := congrArg (List.count x) hr₃
    simp only [List.count_append, List.count_reverse] at *
    omega
  · exact nomatch h

/-- Halves in order are merged from both ends as by a whole merge. The ends do not pass each
    other: an element that both have taken would come before another one and not come before it. -/
theorem mergeHalves_eq_some (hless : WeakOrder P less) (hv : ∀ x ∈ v, P x)
    (hleft : InOrder less (v.take (v.length / 2))) (hright : InOrder less (v.drop (v.length / 2))) :
    mergeHalves less v
      = some ((v.take (v.length / 2)).merge (v.drop (v.length / 2)) fun x y => !less y x) := by
  obtain ⟨front, back, l₁, r₁, l₂, r₂, l₃, r₃, l₄, r₄, hup, hdown, hfront, hback, heq⟩ :=
    exists_mergeHalves less v
  have hPl : ∀ x ∈ v.take (v.length / 2), P x := fun x hx => hv x (List.mem_of_mem_take hx)
  have hPr : ∀ x ∈ v.drop (v.length / 2), P x := fun x hx => hv x (List.mem_of_mem_drop hx)
  obtain ⟨hbefore, hafter⟩ := hup.separates hless hPl hPr hleft hright
  have hrback : InOrder (fun x y => less y x) (v.drop (v.length / 2)).reverse :=
    InOrder.reverse hright
  have hlback : InOrder (fun x y => less y x) (v.take (v.length / 2)).reverse :=
    InOrder.reverse hleft
  obtain ⟨hbefore', hafter'⟩ := hdown.separates hless.flip
    (fun y hy => hPr y (List.mem_reverse.mp hy)) (fun x hx => hPl x (List.mem_reverse.mp hx))
    hrback hlback
  have hl : v.take (v.length / 2) = l₃.reverse ++ l₄.reverse := by
    rw [← List.reverse_append, ← hdown.append_right, List.reverse_reverse]
  have hr : v.drop (v.length / 2) = r₃.reverse ++ r₄.reverse := by
    rw [← List.reverse_append, ← hdown.append_left, List.reverse_reverse]
  have hsame := hup.append_left.symm.trans hl
  have hsame' := hup.append_right.symm.trans hr
  have hcount : l₁.length + r₁.length ≤ l₃.length + r₃.length := by
    have htaken := hup.perm.length_eq
    have htaken' := hdown.perm.length_eq
    have hlengths := congrArg List.length hl
    have hlengths' := congrArg List.length hr
    simp only [List.length_append, List.length_reverse, List.length_take, List.length_drop] at *
    omega
  have hmeet : l₁.length ≤ l₃.length ∧ r₁.length ≤ r₃.length := by
    refine ⟨Nat.le_of_not_lt fun hpass => ?_, Nat.le_of_not_lt fun hpass => ?_⟩
    · obtain ⟨x, hx, hx'⟩ := exists_mem_of_length_lt hsame.symm (by simpa using hpass)
      obtain ⟨y, hy, hy'⟩ := exists_mem_of_length_lt hsame' (by simp; omega)
      have hlt := hafter' y (List.mem_reverse.mp hy) x (List.mem_reverse.mp hx')
      rw [hbefore x hx y hy'] at hlt
      exact nomatch hlt
    · obtain ⟨y, hy, hy'⟩ := exists_mem_of_length_lt hsame'.symm (by simpa using hpass)
      obtain ⟨x, hx, hx'⟩ := exists_mem_of_length_lt hsame (by simp; omega)
      have hlt := hafter x hx' y hy
      rw [hbefore' y (List.mem_reverse.mp hy') x (List.mem_reverse.mp hx)] at hlt
      exact nomatch hlt
  rw [if_pos hmeet] at heq
  have hmerge := arranges_merge hless hPl hPr hleft hright
  have hreverse := merge_reverse hless hPl hPr hleft hright
  rw [List.take_append_drop] at hmerge
  -- the whole merge begins with the one end and ends with the other
  rw [hdown.merge_eq, List.reverse_append] at hreverse
  have hboth := hup.merge_eq.symm.trans hreverse.symm
  have hlength := congrArg List.length hreverse
  rw [hmerge.perm.length_eq] at hlength
  simp only [List.length_append, List.length_reverse] at hlength
  have hend := prefix_drop hboth (by rw [List.length_reverse]; omega)
  rw [hend] at hreverse
  have hperm := (mergeHalves_perm heq).trans hmerge.perm.symm
  rw [← hreverse, List.perm_append_right_iff, List.perm_append_left_iff] at hperm
  rw [heq, ← hreverse, eq_of_perm_of_length_le hperm]
  rw [hperm.length_eq, List.length_drop, List.length_reverse]
  omega

/-- Halves that are arranged are merged from both ends into an arrangement. -/
theorem exists_arranges_mergeHalves {left right : List α} (hless : WeakOrder P less)
    (hxs : ∀ x ∈ xs, P x) (hys : ∀ y ∈ ys, P y) (hl : Arranges P less xs left)
    (hr : Arranges P less ys right) (hlength : (xs.length + ys.length) / 2 = xs.length) :
    ∃ w, mergeHalves less (left ++ right) = some w ∧ Arranges P less (xs ++ ys) w := by
  have hPl := hl.forall_mem hxs
  have hPr := hr.forall_mem hys
  have hhalf : (left ++ right).length / 2 = left.length := by
    rw [List.length_append, hl.perm.length_eq, hr.perm.length_eq, hlength]
  have hmerge := mergeHalves_eq_some (v := left ++ right) hless
    (List.forall_mem_append.mpr ⟨hPl, hPr⟩) (by rw [hhalf, List.take_left]; exact hl.inOrder)
    (by rw [hhalf, List.drop_left]; exact hr.inOrder)
  rw [hhalf, List.take_left, List.drop_left] at hmerge
  exact ⟨_, hmerge, .of_keepsTies (hl.perm.append hr.perm) (hl.ties.append hr.ties)
    (arranges_merge hless hPl hPr hl.inOrder hr.inOrder)⟩

end Halves

-- ── Four and eight elements ─────────────────────────────────────────────────

/-- Two items are arranged by one comparison. -/
theorem arranges_inPair (hless : WeakOrder P less) (hx : P x) (hy : P y) :
    Arranges P less [x, y] [(inPair less x y).1, (inPair less x y).2] := by
  rw [inPair]
  cases hyx : less y x with
  | false => exact .refl (List.pairwise_pair.mpr hyx)
  | true =>
      have hxs := List.forall_mem_singleton.mpr hx
      have hys := List.forall_mem_singleton.mpr hy
      refine ⟨.swap x y [], List.pairwise_pair.mpr (hless.asymm hy hx hyx), ?_⟩
      refine keepsTies_swap hless hxs hys ?_
      exact List.forall_mem_singleton.mpr (List.forall_mem_singleton.mpr hyx)

theorem inPair_perm (less : α → α → Bool) (x y : α) :
    [(inPair less x y).1, (inPair less x y).2].Perm [x, y] := by
  rw [inPair]
  split
  · exact .swap x y []
  · exact .refl _

open Classical in
/-- Two pairs are joined without loss. -/
theorem joinPairs_perm (less : α → α → Bool) (a b c d : α) :
    (joinPairs less a b c d).Perm [a, b, c, d] := by
  refine List.perm_iff_count.mpr fun x => ?_
  rw [joinPairs]
  cases less c a <;> cases less d b <;>
    simp only [Bool.false_eq_true, if_true, if_false] <;> split <;>
    simp only [List.count_cons, List.count_nil] <;> omega

/-- Two pairs in order are joined as by a merge. -/
theorem joinPairs_eq_merge {a b c d : α} (hless : WeakOrder P less) (ha : P a) (hb : P b)
    (hc : P c) (hd : P d) (hab : less b a = false) (hcd : less d c = false) :
    joinPairs less a b c d = [a, b].merge [c, d] fun x y => !less y x := by
  rw [joinPairs]
  cases hca : less c a with
  | false =>
      cases hdb : less d b with
      | false => cases hcb : less c b <;> simp [*]
      | true =>
          have hcb : less c b = true := hless.lt_of_le_of_lt hc hd hb hcd hdb
          simp [*]
  | true =>
      have hcb : less c b = true := hless.lt_of_lt_of_le hc ha hb hca hab
      cases hdb : less d b with
      | false =>
          have hda : less d a = false := hless.trans ha hb hd hab hdb
          simp [*]
      | true => cases hda : less d a <;> simp [*]

theorem sortFour_four (less : α → α → Bool) (v w x y : α) : sortFour less [v, w, x, y]
    = joinPairs less (inPair less v w).1 (inPair less v w).2 (inPair less x y).1
      (inPair less x y).2 :=
  rfl

/-- The sort of four loses nothing. -/
theorem sortFour_perm (less : α → α → Bool) (v : List α) : (sortFour less v).Perm v := by
  rw [sortFour.eq_def]
  split
  · rename_i v w x y
    exact (joinPairs_perm less _ _ _ _).trans ((inPair_perm less v w).append (inPair_perm less x y))
  · exact .refl _

/-- Under a weak order four items are arranged. -/
theorem arranges_sortFour (hless : WeakOrder P less) (hv : ∀ x ∈ v, P x) (hlength : v.length = 4) :
    Arranges P less v (sortFour less v) := by
  match v, hlength with
  | [v, w, x, y], _ =>
      rw [List.forall_mem_cons, List.forall_mem_cons, List.forall_mem_cons,
        List.forall_mem_singleton] at hv
      obtain ⟨hPv, hPw, hPx, hPy⟩ := hv
      have hleft := arranges_inPair hless hPv hPw
      have hright := arranges_inPair hless hPx hPy
      have hab := hleft.forall_mem (by simp [hPv, hPw])
      have hcd := hright.forall_mem (by simp [hPx, hPy])
      have hmerge := arranges_merge hless hab hcd hleft.inOrder hright.inOrder
      rw [List.forall_mem_cons, List.forall_mem_singleton] at hab hcd
      rw [sortFour_four, joinPairs_eq_merge hless hab.1 hab.2 hcd.1 hcd.2
        (List.rel_of_pairwise_cons hleft.inOrder List.mem_cons_self)
        (List.rel_of_pairwise_cons hright.inOrder List.mem_cons_self)]
      exact .of_keepsTies (hleft.perm.append hright.perm) (hleft.ties.append hright.ties) hmerge

/-- If the sort of eight returns, it has lost nothing. -/
theorem sortEight_perm (h : sortEight less v = some w) : w.Perm v := by
  have hhalves := (sortFour_perm less (v.take 4)).append (sortFour_perm less (v.drop 4))
  rw [List.take_append_drop] at hhalves
  exact (mergeHalves_perm h).trans hhalves

/-- Under a weak order it returns and arranges. -/
theorem exists_arranges_sortEight (hless : WeakOrder P less) (hv : ∀ x ∈ v, P x)
    (hlength : v.length = 8) : ∃ w, sortEight less v = some w ∧ Arranges P less v w := by
  have hPl : ∀ x ∈ v.take 4, P x := fun x hx => hv x (List.mem_of_mem_take hx)
  have hPr : ∀ x ∈ v.drop 4, P x := fun x hx => hv x (List.mem_of_mem_drop hx)
  have htake : (v.take 4).length = 4 := by simp [hlength]
  have hdrop : (v.drop 4).length = 4 := by simp [hlength]
  have h := exists_arranges_mergeHalves hless hPl hPr (arranges_sortFour hless hPl htake)
    (arranges_sortFour hless hPr hdrop) (by omega)
  rwa [List.take_append_drop] at h

-- ── Short lists ─────────────────────────────────────────────────────────────

/-- Elements that are arranged first take in those behind them. -/
theorem arranges_insert {first : List α} (hless : WeakOrder P less) (hv : ∀ x ∈ v, P x) (n : Nat)
    (h : Arranges P less (v.take n) first) :
    Arranges P less v (insertAll less first (v.drop n)) := by
  have hPl : ∀ x ∈ v.take n, P x := fun x hx => hv x (List.mem_of_mem_take hx)
  have hPr : ∀ x ∈ v.drop n, P x := fun x hx => hv x (List.mem_of_mem_drop hx)
  have hinsert := Arranges.of_keepsTies (h.perm.append_right _) (h.ties.append_right _)
    (arranges_insertAll hless (h.forall_mem hPl) hPr h.inOrder)
  rwa [List.take_append_drop] at hinsert

/-- A sorted front and the inserted rest are the whole list. -/
theorem insert_perm {first : List α} (n : Nat) (h : first.Perm (v.take n)) :
    (insertAll less first (v.drop n)).Perm v := by
  have hinsert := (insertAll_perm less first (v.drop n)).trans (h.append_right _)
  rwa [List.take_append_drop] at hinsert

/-- Half of a short list is sorted. -/
theorem sortsList_sortHalf (less : α → α → Bool) (bytes length : Nat) {v : List α}
    (hlength : length / 2 ≤ v.length) : SortsList less v (sortHalf less bytes length v) := by
  rw [sortHalf]
  split
  · rename_i hlong
    rw [Bool.and_eq_true, decide_eq_true_eq, decide_eq_true_eq] at hlong
    refine ⟨?_, ?_⟩
    · intro w hw
      obtain ⟨first, hfirst, heq⟩ := Option.bind_eq_some_iff.mp hw
      rw [← Option.some.inj heq]
      exact insert_perm 8 (sortEight_perm hfirst)
    · intro P hless hv
      obtain ⟨first, hfirst, h⟩ := exists_arranges_sortEight (v := v.take 8) hless
        (fun x hx => hv x (List.mem_of_mem_take hx)) (by rw [List.length_take]; omega)
      exact ⟨_, by rw [hfirst]; rfl, arranges_insert hless hv 8 h⟩
  · split
    · refine ⟨?_, ?_⟩
      · intro w hw
        rw [← Option.some.inj hw]
        exact insert_perm 4 (sortFour_perm less _)
      · intro P hless hv
        exact ⟨_, rfl, arranges_insert hless hv 4 (arranges_sortFour hless
          (fun x hx => hv x (List.mem_of_mem_take hx)) (by rw [List.length_take]; omega))⟩
    · refine ⟨?_, ?_⟩
      · intro w hw
        rw [← Option.some.inj hw]
        exact insertAll_perm less [] v
      · intro P hless hv
        exact ⟨_, rfl, arranges_insertAll hless (List.forall_mem_nil _) hv .nil⟩

/-- **A small sort sorts.** What it gives is the list rearranged; and if the test is that of an
    order it gives the list arranged. -/
theorem sortsList_smallSort (less : α → α → Bool) (bytes : Nat) (v : List α) :
    SortsList less v (smallSort less bytes v) := by
  rw [smallSort]
  split
  · rename_i hshort
    refine ⟨fun w hw => .of_eq (Option.some.inj hw).symm, fun P _ _ => ⟨v, rfl, .refl ?_⟩⟩
    match v, hshort with
    | [], _ => exact .nil
    | [x], _ => exact List.pairwise_singleton _ x
  · have hleft := sortsList_sortHalf less bytes v.length (v := v.take (v.length / 2))
      (by rw [List.length_take]; omega)
    have hright := sortsList_sortHalf less bytes v.length (v := v.drop (v.length / 2))
      (by rw [List.length_drop]; omega)
    refine ⟨?_, ?_⟩
    · intro w hw
      obtain ⟨left, hl, hw⟩ := Option.bind_eq_some_iff.mp hw
      obtain ⟨right, hr, hw⟩ := Option.bind_eq_some_iff.mp hw
      have hhalves := (hleft.perm left hl).append (hright.perm right hr)
      rw [List.take_append_drop] at hhalves
      exact (mergeHalves_perm hw).trans hhalves
    · intro P hless hv
      have hPl : ∀ x ∈ v.take (v.length / 2), P x := fun x hx => hv x (List.mem_of_mem_take hx)
      have hPr : ∀ x ∈ v.drop (v.length / 2), P x := fun x hx => hv x (List.mem_of_mem_drop hx)
      obtain ⟨left, hl, hleft⟩ := hleft.arranges P hless hPl
      obtain ⟨right, hr, hright⟩ := hright.arranges P hless hPr
      obtain ⟨w, hw, h⟩ := exists_arranges_mergeHalves hless hPl hPr hleft hright
        (by rw [List.length_take, List.length_drop]; omega)
      rw [List.take_append_drop] at h
      refine ⟨w, ?_, h⟩
      exact Option.bind_eq_some_iff.mpr ⟨left, hl, Option.bind_eq_some_iff.mpr ⟨right, hr, hw⟩⟩

end DocQuery.Sorting
