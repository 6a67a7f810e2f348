import DocQuery.Sorting.Basic
import Mathlib.Data.List.Forall2
import Mathlib.Data.List.Perm.Basic
import Mathlib.Order.Nat

/-!
# Orders, and what a stable sort is

A test is that of an order on some elements if it is asymmetric there and what it does not tell
apart is transitive (`WeakOrder`). A list arranges another one by the test if it has the same
elements, in order, and ties as they were (`Arranges`); there is only one such list
(`Arranges.unique`). Parts that a sort moves past each other keep their ties if everything that
moves to the front comes before everything it passes (`keepsTies_swap`): all the steps of a sort
are of this kind. The sort of the library arranges too, by a total preorder of the members
(`arranges_mergeSort`).
-/

namespace DocQuery

-- ── Sorting by comparisons on the members ───────────────────────────────────

section MergeSort

variable {α : Type} {r s : α → α → Bool} {l l₁ l₂ : List α}

/-- A sort depends on how it compares the members only. -/
theorem mergeSort_congr_of_mem (h : ∀ a ∈ l, ∀ b ∈ l, r a b = s a b) :
    l.mergeSort r = l.mergeSort s := by
  have hmap := List.map_mergeSort (f := id) h
  rw [List.map_id, List.map_id] at hmap
  exact hmap

/-- A sort gives a sorted list if the comparison is total and transitive on the members. -/
theorem pairwise_mergeSort_of_mem
    (htrans : ∀ a ∈ l, ∀ b ∈ l, ∀ c ∈ l, r a b = true → r b c = true → r a c = true)
    (htotal : ∀ a ∈ l, ∀ b ∈ l, (r a b || r b a) = true) :
    (l.mergeSort r).Pairwise fun a b => r a b = true := by
  have hsorted : (l.attach.mergeSort fun a b => r a.1 b.1).Pairwise fun a b => r a.1 b.1 = true :=
    List.pairwise_mergeSort (fun a b c => htrans a.1 a.2 b.1 b.2 c.1 c.2)
      (fun a b => htotal a.1 a.2 b.1 b.2) l.attach
  have hmap := List.map_mergeSort (f := Subtype.val) (s := r) (l := l.attach)
    (r := fun a b : { x // x ∈ l } => r a.1 b.1) (fun _ _ _ _ => rfl)
  rw [List.attach_map_subtype_val] at hmap
  rw [← hmap]
  exact List.pairwise_map.mpr hsorted

/-- Of two sorted arrangements of the same members, each has at every place something that
    does not come after what the other has there. -/
theorem rel_of_perm_of_pairwise (hperm : l₁.Perm l₂) (h₁ : l₁.Pairwise fun a b => r a b = true)
    (h₂ : l₂.Pairwise fun a b => r a b = true) (hrefl : ∀ a ∈ l₁, r a a = true)
    (htrans : ∀ a ∈ l₁, ∀ b ∈ l₁, ∀ c ∈ l₁, r a b = true → r b c = true → r a c = true)
    {i : Nat} (hi₁ : i < l₁.length) (hi₂ : i < l₂.length) : r l₁[i] l₂[i] = true := by
  have hmem : l₂[i] ∈ l₁ := hperm.mem_iff.mpr (List.getElem_mem hi₂)
  by_contra hnot
  -- up to the place, all of the second list comes before what is there
  have hcount₂ : i + 1 ≤ l₂.countP (r · l₂[i]) := by
    have htake : (l₂.take (i + 1)).countP (r · l₂[i]) = (l₂.take (i + 1)).length := by
      refine List.countP_eq_length.mpr ?_
      intro a ha
      obtain ⟨j, hj, rfl⟩ := List.mem_take_iff_getElem.mp ha
      rcases Nat.lt_or_eq_of_le (Nat.lt_succ_iff.mp (hj.trans_le (Nat.min_le_left _ _))) with
        hlt | rfl
      · exact List.pairwise_iff_getElem.mp h₂ j i _ hi₂ hlt
      · exact hrefl _ hmem
    rw [List.length_take, Nat.min_eq_left hi₂] at htake
    exact htake.symm.le.trans (List.take_sublist _ _).countP_le
  -- from the place on, nothing of the first list does
  have hcount₁ : l₁.countP (r · l₂[i]) ≤ i := by
    have hdrop : (l₁.drop i).countP (r · l₂[i]) = 0 := by
      refine List.countP_eq_zero.mpr ?_
      intro a ha hra
      obtain ⟨j, hj, rfl⟩ := List.mem_drop_iff_getElem.mp ha
      rcases Nat.eq_zero_or_pos j with rfl | hpos
      · exact hnot hra
      · exact hnot (htrans _ (List.getElem_mem hi₁) _ (List.getElem_mem _) _ hmem
          (List.pairwise_iff_getElem.mp h₁ i (i + j) hi₁ _ (by omega)) hra)
    rw [← List.take_append_drop i l₁, List.countP_append, hdrop, Nat.add_zero]
    exact List.countP_le_length.trans (List.length_take_le _ _)
  rw [hperm.countP_eq] at hcount₁
  omega

/-- Two sorted arrangements of the same members have ties place by place. -/
theorem forall₂_of_perm_of_pairwise (hperm : l₁.Perm l₂)
    (h₁ : l₁.Pairwise fun a b => r a b = true) (h₂ : l₂.Pairwise fun a b => r a b = true)
    (hrefl : ∀ a ∈ l₁, r a a = true)
    (htrans : ∀ a ∈ l₁, ∀ b ∈ l₁, ∀ c ∈ l₁, r a b = true → r b c = true → r a c = true) :
    l₁.Forall₂ (fun a b => r a b = true ∧ r b a = true) l₂ := by
  refine List.forall₂_iff_get.mpr ⟨hperm.length_eq, ?_⟩
  intro i hi₁ hi₂
  have hmem : ∀ {a}, a ∈ l₂ → a ∈ l₁ := fun h => hperm.mem_iff.mpr h
  exact ⟨rel_of_perm_of_pairwise hperm h₁ h₂ hrefl htrans hi₁ hi₂,
    rel_of_perm_of_pairwise hperm.symm h₂ h₁ (fun a ha => hrefl a (hmem ha))
      (fun a ha b hb c hc => htrans a (hmem ha) b (hmem hb) c (hmem hc)) hi₂ hi₁⟩

theorem bne_gt_eq_isLE (o : Ordering) : (o != .gt) = o.isLE := by
  cases o <;> rfl

variable {cmp : α → α → Ordering}

/-- A comparison that is transitive on the members of a list is transitive as a test. -/
theorem isLE_trans_of_mem (hcmp : Std.TransCmp fun a b : { x // x ∈ l } => cmp a.1 b.1) :
    ∀ a ∈ l, ∀ b ∈ l, ∀ c ∈ l, (cmp a b).isLE = true → (cmp b c).isLE = true →
      (cmp a c).isLE = true :=
  fun a ha b hb c hc => hcmp.isLE_trans (a := ⟨a, ha⟩) (b := ⟨b, hb⟩) (c := ⟨c, hc⟩)

/-- A comparison that is transitive on the members of a list is total as a test. -/
theorem isLE_total_of_mem (hcmp : Std.TransCmp fun a b : { x // x ∈ l } => cmp a.1 b.1) :
    ∀ a ∈ l, ∀ b ∈ l, ((cmp a b).isLE || (cmp b a).isLE) = true := by
  intro a ha b hb
  have hor : ∀ o : Ordering, (o.isLE || o.swap.isLE) = true := by decide
  rw [show cmp b a = _ from hcmp.eq_swap (a := ⟨b, hb⟩) (b := ⟨a, ha⟩)]
  exact hor _

/-- A sort by a total preorder of the members gives a sorted list. -/
theorem pairwise_mergeSort_of_transCmp
    (hcmp : Std.TransCmp fun a b : { x // x ∈ l } => cmp a.1 b.1) :
    (l.mergeSort fun a b => cmp a b != .gt).Pairwise fun a b => (cmp a b).isLE = true := by
  simp only [bne_gt_eq_isLE]
  exact pairwise_mergeSort_of_mem (isLE_trans_of_mem hcmp) (isLE_total_of_mem hcmp)

end MergeSort

-- ── Stable sorts ────────────────────────────────────────────────────────────

section StableSort

variable {α : Type} {r : α → α → Bool} {l l₁ l₂ sub : List α}

/-- What is in order already stays in this order. -/
theorem sublist_mergeSort_of_mem
    (htrans : ∀ a ∈ l, ∀ b ∈ l, ∀ c ∈ l, r a b = true → r b c = true → r a c = true)
    (htotal : ∀ a ∈ l, ∀ b ∈ l, (r a b || r b a) = true)
    (hsorted : sub.Pairwise fun a b => r a b = true) (hsub : sub.Sublist l) :
    sub.Sublist (l.mergeSort r) := by
  have hmap := List.map_mergeSort (f := Subtype.val) (s := r) (l := l.attach)
    (r := fun a b : { x // x ∈ l } => r a.1 b.1) (fun _ _ _ _ => rfl)
  rw [List.attach_map_subtype_val] at hmap
  rw [← l.attach_map_subtype_val] at hsub
  obtain ⟨sub', hsub', rfl⟩ := List.sublist_map_iff.mp hsub
  rw [← hmap]
  refine List.Sublist.map _ (List.sublist_mergeSort ?_ ?_ (List.pairwise_map.mp hsorted) hsub')
  · intro a b c
    exact htrans a.1 a.2 b.1 b.2 c.1 c.2
  · intro a b
    exact htotal a.1 a.2 b.1 b.2

/-- The members that are tied with one of them keep their order. -/
theorem filter_mergeSort_of_mem
    (htrans : ∀ a ∈ l, ∀ b ∈ l, ∀ c ∈ l, r a b = true → r b c = true → r a c = true)
    (htotal : ∀ a ∈ l, ∀ b ∈ l, (r a b || r b a) = true) {a : α} (ha : a ∈ l) :
    (l.mergeSort r).filter (fun b => r a b && r b a) = l.filter fun b => r a b && r b a := by
  have htied : (l.filter fun b => r a b && r b a).Pairwise fun b c => r b c = true := by
    refine List.pairwise_of_forall_mem_list ?_
    intro b hb c hc
    obtain ⟨hb, hab⟩ := List.mem_filter.mp hb
    obtain ⟨hc, hac⟩ := List.mem_filter.mp hc
    rw [Bool.and_eq_true] at hab hac
    exact htrans b hb a ha c hc hab.2 hac.1
  have hsub := sublist_mergeSort_of_mem htrans htotal htied List.filter_sublist
  have hfilter := hsub.filter fun b => r a b && r b a
  rw [List.filter_filter] at hfilter
  simp only [Bool.and_self] at hfilter
  have hlength := ((List.mergeSort_perm l r).filter fun b => r a b && r b a).length_eq
  exact (hfilter.eq_of_length hlength.symm).symm

/-- Two sorted lists with the same ties in the same order are one. The induction is on both: their
    first members are tied, and so the same. -/
theorem eq_of_filter_eq (h₁ : l₁.Pairwise fun a b => r a b = true)
    (h₂ : l₂.Pairwise fun a b => r a b = true) (hrefl : ∀ a ∈ l₁, r a a = true)
    (hperm : l₁.Perm l₂) (hties : ∀ a ∈ l₁,
      l₁.filter (fun b => r a b && r b a) = l₂.filter fun b => r a b && r b a) : l₁ = l₂ := by
  induction l₁ generalizing l₂ with
  | nil => exact hperm.nil_eq
  | cons a l₁ ih =>
      cases l₂ with
      | nil => exact absurd hperm.eq_nil (List.cons_ne_nil _ _)
      | cons b l₂ =>
          have haa : r a a = true := hrefl a List.mem_cons_self
          have hab : r a b = true ∧ r b a = true := by
            have hb : b ∈ a :: l₁ := hperm.mem_iff.mpr List.mem_cons_self
            have ha : a ∈ b :: l₂ := hperm.mem_iff.mp List.mem_cons_self
            rcases List.mem_cons.mp hb with rfl | hb
            · exact ⟨haa, haa⟩
            · rcases List.mem_cons.mp ha with rfl | ha
              · exact ⟨haa, haa⟩
              · exact ⟨List.rel_of_pairwise_cons h₁ hb, List.rel_of_pairwise_cons h₂ ha⟩
          have hfirst := hties a List.mem_cons_self
          rw [List.filter_cons_of_pos (by rw [haa]; rfl),
            List.filter_cons_of_pos (by rw [hab.1, hab.2]; rfl)] at hfirst
          obtain ⟨rfl, -⟩ := List.cons.inj hfirst
          congr 1
          refine ih h₁.of_cons h₂.of_cons (fun c hc => hrefl c (List.mem_cons_of_mem _ hc))
            hperm.cons_inv ?_
          intro c hc
          have hrest := hties c (List.mem_cons_of_mem _ hc)
          rw [List.filter_cons, List.filter_cons] at hrest
          split at hrest
          · exact (List.cons.inj hrest).2
          · exact hrest

/-- Members are tied when neither comes after the other. -/
theorem filter_tied_eq {cmp : α → α → Ordering}
    (hcmp : Std.TransCmp fun a b : { x // x ∈ l } => cmp a.1 b.1) (hsub : sub ⊆ l) {a : α}
    (ha : a ∈ l) : sub.filter (cmp a · == .eq)
      = sub.filter fun b => (cmp a b).isLE && (cmp b a).isLE := by
  refine List.filter_congr ?_
  intro b hb
  have hswap := hcmp.eq_swap (a := ⟨b, hsub hb⟩) (b := ⟨a, ha⟩)
  have htied : ∀ o : Ordering, (o == .eq) = (o.isLE && o.swap.isLE) := by decide
  rw [show cmp b a = _ from hswap]
  exact htied _

/-- A sort by a total preorder of the members leaves those that are tied in their order. -/
theorem stable_mergeSort {cmp : α → α → Ordering}
    (hcmp : Std.TransCmp fun a b : { x // x ∈ l } => cmp a.1 b.1) :
    (l.mergeSort fun a b => cmp a b != .gt).Pairwise (fun a b => (cmp a b).isLE = true) ∧
      ∀ a ∈ l, (l.mergeSort fun a b => cmp a b != .gt).filter (cmp a · == .eq)
        = l.filter (cmp a · == .eq) := by
  refine ⟨pairwise_mergeSort_of_transCmp hcmp, ?_⟩
  intro a ha
  rw [filter_tied_eq hcmp (List.mergeSort_perm _ _).subset ha,
    filter_tied_eq hcmp (List.Subset.refl _) ha]
  simp only [bne_gt_eq_isLE]
  exact filter_mergeSort_of_mem (isLE_trans_of_mem hcmp) (isLE_total_of_mem hcmp) ha

end StableSort

namespace Sorting

-- ── Weak orders ─────────────────────────────────────────────────────────────

/-- On some elements the test never holds both ways, and where it fails it fails transitively. -/
structure WeakOrder {α : Type} (P : α → Prop) (less : α → α → Bool) : Prop where
  asymm {a b : α} : P a → P b → less a b = true → less b a = false
  trans {a b c : α} : P a → P b → P c → less b a = false → less c b = false → less c a = false

/-- Neither of two elements comes before the other. -/
def tied {α : Type} (less : α → α → Bool) (a b : α) : Bool :=
  !less b a && !less a b

/-- No element comes before an earlier one. -/
def InOrder {α : Type} (less : α → α → Bool) (xs : List α) : Prop :=
  xs.Pairwise fun a b => less b a = false

variable {α : Type} {P : α → Prop} {less : α → α → Bool} {xs ys zs us vs : List α} {a x y z : α}

theorem tied_eq_true_iff : tied less a x = true ↔ less x a = false ∧ less a x = false := by
  rw [tied, Bool.and_eq_true, Bool.not_eq_true', Bool.not_eq_true']

namespace WeakOrder

/-- The test turned around is that of an order too. -/
theorem flip (h : WeakOrder P less) : WeakOrder P fun x y => less y x :=
  ⟨fun ha hb => h.asymm hb ha, fun ha hb hc hab hbc => h.trans hc hb ha hbc hab⟩

theorem irrefl (h : WeakOrder P less) (hx : P x) : less x x = false :=
  Bool.eq_false_iff.mpr fun hlt => Bool.eq_false_iff.mp (h.asymm hx hx hlt) hlt

/-- What comes before an element comes before all that do not come before that one. -/
theorem lt_of_lt_of_le (h : WeakOrder P less) (hx : P x) (hy : P y) (hz : P z)
    (hxy : less x y = true) (hyz : less z y = false) : less x z = true := by
  refine Bool.of_not_eq_false fun hxz => ?_
  rw [h.trans hy hz hx hyz hxz] at hxy
  exact nomatch hxy

/-- What an element does not come before does not come before what it comes before. -/
theorem lt_of_le_of_lt (h : WeakOrder P less) (hx : P x) (hy : P y) (hz : P z)
    (hxy : less y x = false) (hyz : less y z = true) : less x z = true :=
  h.flip.lt_of_lt_of_le hz hy hx hyz hxy

/-- Elements that are tied with one are not told apart. -/
theorem not_lt_of_tied (h : WeakOrder P less) (ha : P a) (hx : P x) (hy : P y)
    (hax : tied less a x = true) (hay : tied less a y = true) : less x y = false :=
  h.trans hy ha hx (tied_eq_true_iff.mp hay).2 (tied_eq_true_iff.mp hax).1

/-- Elements that are tied come before the same elements, and after the same ones. -/
theorem less_eq_of_tied (h : WeakOrder P less) (ha : P a) (hx : P x) (hz : P z)
    (hax : tied less a x = true) : less a z = less x z ∧ less z a = less z x := by
  obtain ⟨hxa, hax⟩ := tied_eq_true_iff.mp hax
  refine ⟨Bool.eq_iff_iff.mpr ⟨?_, ?_⟩, Bool.eq_iff_iff.mpr ⟨?_, ?_⟩⟩
  · exact h.lt_of_le_of_lt hx ha hz hax
  · exact h.lt_of_le_of_lt ha hx hz hxa
  · exact fun hlt => h.lt_of_lt_of_le hz ha hx hlt hxa
  · exact fun hlt => h.lt_of_lt_of_le hz hx ha hlt hax

end WeakOrder

-- ── Ties ────────────────────────────────────────────────────────────────────

/-- Elements that are tied with one stand in the second list as in the first one. -/
def KeepsTies (P : α → Prop) (less : α → α → Bool) (xs ys : List α) : Prop :=
  ∀ a, P a → ys.filter (tied less a) = xs.filter (tied less a)

namespace KeepsTies

theorem refl (xs : List α) : KeepsTies P less xs xs :=
  fun _ _ => rfl

theorem trans (h : KeepsTies P less xs ys) (h' : KeepsTies P less ys zs) :
    KeepsTies P less xs zs :=
  fun a ha => (h' a ha).trans (h a ha)

/-- Rearrangements that keep ties keep them side by side. -/
theorem append (h : KeepsTies P less xs ys) (h' : KeepsTies P less us vs) :
    KeepsTies P less (xs ++ us) (ys ++ vs) := by
  intro a ha
  rw [List.filter_append, List.filter_append, h a ha, h' a ha]

theorem append_left (h : KeepsTies P less xs ys) (us : List α) :
    KeepsTies P less (us ++ xs) (us ++ ys) :=
  (refl us).append h

theorem append_right (h : KeepsTies P less xs ys) (us : List α) :
    KeepsTies P less (xs ++ us) (ys ++ us) :=
  h.append (refl us)

/-- Seen from behind, ties are kept for the test turned around. -/
theorem reverse (h : KeepsTies P (fun x y => less y x) xs ys) :
    KeepsTies P less xs.reverse ys.reverse := by
  have hflip : ∀ a, tied (fun x y => less y x) a = tied less a :=
    fun a => funext fun x => Bool.and_comm _ _
  intro a ha
  rw [List.filter_reverse, List.filter_reverse, ← hflip, h a ha]

end KeepsTies

/-- Elements may move in front of those that they come before. -/
theorem keepsTies_swap (hless : WeakOrder P less) (hxs : ∀ x ∈ xs, P x) (hys : ∀ y ∈ ys, P y)
    (h : ∀ x ∈ xs, ∀ y ∈ ys, less y x = true) : KeepsTies P less (xs ++ ys) (ys ++ xs) := by
  intro a ha
  rw [List.filter_append, List.filter_append]
  by_cases hnone : xs.filter (tied less a) = []
  · rw [hnone, List.append_nil, List.nil_append]
  · obtain ⟨x, hx⟩ := List.exists_mem_of_ne_nil _ hnone
    obtain ⟨hx, hax⟩ := List.mem_filter.mp hx
    have hothers : ys.filter (tied less a) = [] := by
      refine List.filter_eq_nil_iff.mpr ?_
      intro y hy hay
      have hlt := h x hx y hy
      rw [hless.not_lt_of_tied ha (hys y hy) (hxs x hx) hay hax] at hlt
      exact nomatch hlt
    rw [hothers, List.append_nil, List.nil_append]

/-- Elements may be split by a test that does not tell tied ones apart. -/
theorem keepsTies_filter {p : α → Bool}
    (h : ∀ a, P a → ∀ x ∈ xs, tied less a x = true → p x = p a) :
    KeepsTies P less xs (xs.filter p ++ xs.filter (!p ·)) := by
  intro a ha
  have hpass : ∀ b : Bool, (xs.filter fun x => p x == b).filter (tied less a)
      = if p a = b then xs.filter (tied less a) else [] := by
    intro b
    rw [List.filter_filter]
    split
    · rename_i hpa
      refine List.filter_congr ?_
      intro x hx
      cases hax : tied less a x with
      | false => rfl
      | true => rw [h a ha x hx hax, hpa, beq_self_eq_true, Bool.and_self]
    · rename_i hpa
      refine List.filter_eq_nil_iff.mpr ?_
      intro x hx hboth
      obtain ⟨hax, hpx⟩ := Bool.and_eq_true_iff.mp hboth
      exact hpa ((h a ha x hx hax).symm.trans (eq_of_beq hpx))
  have htrue := hpass true
  have hfalse := hpass false
  simp only [beq_true, beq_false] at htrue hfalse
  rw [List.filter_append, htrue, hfalse]
  cases p a with
  | true => exact List.append_nil _
  | false => rfl

-- ── Lists in order ──────────────────────────────────────────────────────────

theorem InOrder.reverse (h : InOrder (fun x y => less y x) xs) : InOrder less xs.reverse :=
  List.pairwise_reverse.mpr h

/-- Lists in order are in order together if nothing behind is less. -/
theorem inOrder_append : InOrder less (xs ++ ys) ↔ InOrder less xs ∧ InOrder less ys ∧
    ∀ x ∈ xs, ∀ y ∈ ys, less y x = false :=
  List.pairwise_append

-- ── Arrangements ────────────────────────────────────────────────────────────

/-- The second list has the elements of the first one in order, and ties as they were. -/
structure Arranges (P : α → Prop) (less : α → α → Bool) (xs ys : List α) : Prop where
  perm : ys.Perm xs
  inOrder : InOrder less ys
  ties : KeepsTies P less xs ys

namespace Arranges

theorem refl (h : InOrder less xs) : Arranges P less xs xs :=
  ⟨.refl xs, h, .refl xs⟩

/-- What is moved about with its ties kept is arranged as before. -/
theorem of_keepsTies (hperm : ys.Perm xs) (hties : KeepsTies P less xs ys)
    (h : Arranges P less ys zs) : Arranges P less xs zs :=
  ⟨h.perm.trans hperm, h.inOrder, hties.trans h.ties⟩

theorem forall_mem (h : Arranges P less xs ys) (hxs : ∀ x ∈ xs, P x) : ∀ y ∈ ys, P y :=
  fun y hy => hxs y (h.perm.subset hy)

/-- Seen from behind, a list is arranged by the test turned around. -/
theorem reverse (h : Arranges P (fun x y => less y x) xs ys) :
    Arranges P less xs.reverse ys.reverse :=
  ⟨ys.reverse_perm.trans (h.perm.trans xs.reverse_perm.symm), h.inOrder.reverse, h.ties.reverse⟩

/-- Lists of which no element of the second one comes before one of the first are arranged one
    after the other. -/
theorem append (h : Arranges P less xs ys) (h' : Arranges P less us vs)
    (hle : ∀ x ∈ xs, ∀ u ∈ us, less u x = false) : Arranges P less (xs ++ us) (ys ++ vs) := by
  refine ⟨h.perm.append h'.perm, ?_, h.ties.append h'.ties⟩
  refine inOrder_append.mpr ⟨h.inOrder, h'.inOrder, ?_⟩
  exact fun y hy v hv => hle y (h.perm.subset hy) v (h'.perm.subset hv)

/-- There is one arrangement. -/
theorem unique (hless : WeakOrder P less) (hxs : ∀ x ∈ xs, P x) (h : Arranges P less xs ys)
    (h' : Arranges P less xs zs) : ys = zs := by
  have hle : ∀ {l : List α}, InOrder less l → l.Pairwise fun a b => (!less b a) = true :=
    fun hl => hl.imp fun hab => by rw [hab]; rfl
  refine eq_of_filter_eq (r := fun a b => !less b a) (hle h.inOrder) (hle h'.inOrder) ?_
    (h.perm.trans h'.perm.symm) ?_
  · intro y hy
    rw [hless.irrefl (h.forall_mem hxs y hy)]
    rfl
  · intro y hy
    have hy := h.forall_mem hxs y hy
    exact (h.ties y hy).trans (h'.ties y hy).symm

end Arranges

/-- A total preorder of the members is an order on them. -/
theorem weakOrder_of_transCmp {cmp : α → α → Ordering}
    (hcmp : Std.TransCmp fun a b : { x // x ∈ xs } => cmp a.1 b.1) :
    WeakOrder (· ∈ xs) fun a b => cmp a b == .lt := by
  have hswap : ∀ {a b}, a ∈ xs → b ∈ xs → cmp a b = (cmp b a).swap :=
    fun ha hb => hcmp.eq_swap (a := ⟨_, ha⟩) (b := ⟨_, hb⟩)
  have hle : ∀ {a b}, a ∈ xs → b ∈ xs → (cmp b a == .lt) = false → (cmp a b).isLE = true := by
    intro a b ha hb h
    rw [hswap ha hb]
    revert h
    cases cmp b a <;> decide
  refine ⟨?_, ?_⟩
  · intro a b ha hb h
    rw [hswap hb ha, eq_of_beq h]
    rfl
  · intro a b c ha hb hc hab hbc
    have hac := isLE_trans_of_mem hcmp a ha b hb c hc (hle ha hb hab) (hle hb hc hbc)
    rw [hswap hc ha]
    revert hac
    cases cmp a c <;> decide

/-- The sort of the library arranges by a total preorder of the members. -/
theorem arranges_mergeSort {cmp : α → α → Ordering}
    (hcmp : Std.TransCmp fun a b : { x // x ∈ xs } => cmp a.1 b.1) :
    Arranges (· ∈ xs) (fun a b => cmp a b == .lt) xs
      (xs.mergeSort fun a b => cmp a b != .gt) := by
  have hperm := List.mergeSort_perm xs fun a b => cmp a b != .gt
  have hswap : ∀ {a b}, a ∈ xs → b ∈ xs → cmp b a = (cmp a b).swap :=
    fun ha hb => hcmp.eq_swap (a := ⟨_, hb⟩) (b := ⟨_, ha⟩)
  obtain ⟨hsorted, hties⟩ := stable_mergeSort hcmp
  refine ⟨hperm, ?_, ?_⟩
  · refine hsorted.imp_of_mem ?_
    intro a b ha hb hab
    show (cmp b a == .lt) = false
    rw [hswap (hperm.subset ha) (hperm.subset hb)]
    revert hab
    cases cmp a b <;> decide
  · intro a ha
    have htied : ∀ {l : List α}, l ⊆ xs → l.filter (tied (fun a b => cmp a b == .lt) a)
        = l.filter (cmp a · == .eq) := by
      intro l hl
      refine List.filter_congr ?_
      intro b hb
      rw [tied, hswap ha (hl hb)]
      cases cmp a b <;> rfl
    rw [htied hperm.subset, htied (List.Subset.refl _)]
    exact hties a ha

end Sorting

end DocQuery
