import Mathlib.Data.List.Forall2
import Mathlib.Data.List.Perm.Subperm

/-!
# Computations that succeed or fail

When a computation of several parts succeeds, and what it then gives: one part after another, a
check or a computation for every item of a list. Two computations agree when they fail for one
reason or succeed with related results; what is built of parts that agree does so too.
-/

namespace DocQuery

variable {ε α β : Type}

/-- A computation that goes on succeeds when both parts do. -/
theorem bind_eq_ok_iff {x : Except ε α} {f : α → Except ε β} {b : β} :
    x >>= f = .ok b ↔ ∃ a, x = .ok a ∧ f a = .ok b := by
  cases x with
  | error e =>
      constructor
      · intro h
        exact nomatch h
      · rintro ⟨a, ha, -⟩
        exact nomatch ha
  | ok a =>
      constructor
      · intro h
        exact ⟨a, rfl, h⟩
      · rintro ⟨a', ha, h⟩
        rw [ha]
        exact h

/-- A result that was mapped is that of a result. -/
theorem map_eq_ok_iff {x : Except ε α} {f : α → β} {b : β} :
    x.map f = .ok b ↔ ∃ a, x = .ok a ∧ f a = b := by
  cases x with
  | error e =>
      constructor
      · intro h
        exact nomatch h
      · rintro ⟨a, ha, -⟩
        exact nomatch ha
  | ok a =>
      constructor
      · intro h
        exact ⟨a, rfl, Except.ok.inj h⟩
      · rintro ⟨a', ha, rfl⟩
        rw [ha]
        rfl

/-- A check of a list succeeds just when it does for every item. -/
theorem forM_eq_ok_iff {f : α → Except ε Unit} {items : List α} :
    items.forM f = .ok () ↔ ∀ x ∈ items, f x = .ok () := by
  induction items with
  | nil => exact ⟨fun _ x hx => (nomatch hx), fun _ => rfl⟩
  | cons x rest ih =>
      show (f x >>= fun _ => rest.forM f) = .ok () ↔ _
      rw [bind_eq_ok_iff, List.forall_mem_cons]
      constructor
      · rintro ⟨⟨⟩, hx, hrest⟩
        exact ⟨hx, ih.mp hrest⟩
      · rintro ⟨hx, hrest⟩
        exact ⟨(), hx, ih.mpr hrest⟩

/-- A computation for every item of a list gives a result for each. -/
theorem mapM_eq_ok_iff {f : α → Except ε β} {items : List α} {ys : List β} :
    items.mapM f = .ok ys ↔ List.Forall₂ (fun x y => f x = .ok y) items ys := by
  induction items generalizing ys with
  | nil =>
      rw [List.mapM_nil]
      constructor
      · intro h
        rw [← Except.ok.inj h]
        exact .nil
      · rintro ⟨⟩
        rfl
  | cons x rest ih =>
      rw [List.mapM_cons, bind_eq_ok_iff]
      constructor
      · rintro ⟨y, hy, h⟩
        obtain ⟨ys', hys', h⟩ := bind_eq_ok_iff.mp h
        rw [← Except.ok.inj h]
        exact .cons hy (ih.mp hys')
      · rintro (_ | ⟨hy, hrest⟩)
        exact ⟨_, hy, bind_eq_ok_iff.mpr ⟨_, ih.mpr hrest, rfl⟩⟩

/-- The results are those of the items, and no item is without one. -/
theorem mem_mapM {f : α → Except ε β} {items : List α} {ys : List β}
    (h : items.mapM f = .ok ys) :
    (∀ y ∈ ys, ∃ x ∈ items, f x = .ok y) ∧ ∀ x ∈ items, ∃ y ∈ ys, f x = .ok y := by
  induction mapM_eq_ok_iff.mp h with
  | nil => exact ⟨fun _ hy => (nomatch hy), fun _ hx => (nomatch hx)⟩
  | @cons x y items ys hxy hrest ih =>
      obtain ⟨hys, hitems⟩ := ih (mapM_eq_ok_iff.mpr hrest)
      refine ⟨List.forall_mem_cons.mpr ⟨⟨x, List.mem_cons_self, hxy⟩, ?_⟩,
        List.forall_mem_cons.mpr ⟨⟨y, List.mem_cons_self, hxy⟩, ?_⟩⟩
      · intro z hz
        obtain ⟨w, hw, hok⟩ := hys z hz
        exact ⟨w, List.mem_cons_of_mem _ hw, hok⟩
      · intro z hz
        obtain ⟨w, hw, hok⟩ := hitems z hz
        exact ⟨w, List.mem_cons_of_mem _ hw, hok⟩

/-- A computation that succeeds for every item succeeds for all of them. -/
theorem mapM_isOk {f : α → Except ε β} {items : List α}
    (h : ∀ x ∈ items, ∃ y, f x = .ok y) : ∃ ys, items.mapM f = .ok ys := by
  induction items with
  | nil => exact ⟨[], rfl⟩
  | cons x rest ih =>
      obtain ⟨y, hy⟩ := h x List.mem_cons_self
      obtain ⟨ys, hys⟩ := ih fun z hz => h z (List.mem_cons_of_mem _ hz)
      rw [List.mapM_cons]
      exact ⟨y :: ys, bind_eq_ok_iff.mpr ⟨y, hy, bind_eq_ok_iff.mpr ⟨ys, hys, rfl⟩⟩⟩

/-- Related items remain related when those that meet related conditions are kept. -/
theorem forall₂_filter {R : α → β → Prop} {xs : List α} {ys : List β} (h : List.Forall₂ R xs ys)
    {p : α → Bool} {q : β → Bool} (hpq : ∀ x y, R x y → p x = q y) :
    List.Forall₂ R (xs.filter p) (ys.filter q) := by
  induction h with
  | nil => exact .nil
  | @cons x y _ _ hxy _ ih =>
      by_cases hq : q y = true
      · rw [List.filter_cons_of_pos ((hpq x y hxy).trans hq), List.filter_cons_of_pos hq]
        exact .cons hxy ih
      · rw [List.filter_cons_of_neg (fun hp => hq ((hpq x y hxy).symm.trans hp)),
          List.filter_cons_of_neg hq]
        exact ih

/-- Some of the results, in any order, are results of some of the items. -/
theorem exists_subperm_of_forall₂ {R : α → β → Prop} {xs : List α} {ys part : List β}
    (h : List.Forall₂ R xs ys) (hpart : part.Subperm ys) :
    ∃ others : List α, others.Subperm xs ∧ List.Forall₂ R others part := by
  obtain ⟨kept, hperm, hsublist⟩ := hpart
  have hkept : ∃ others, others.Sublist xs ∧ List.Forall₂ R others kept := by
    clear hperm
    induction hsublist generalizing xs with
    | slnil => exact ⟨[], List.nil_sublist _, .nil⟩
    | cons y _ ih =>
        obtain _ | ⟨-, hrest⟩ := h
        obtain ⟨others, hothers, hrelated⟩ := ih hrest
        exact ⟨others, hothers.cons _, hrelated⟩
    | cons_cons y _ ih =>
        obtain _ | ⟨hxy, hrest⟩ := h
        obtain ⟨others, hothers, hrelated⟩ := ih hrest
        exact ⟨_ :: others, hothers.cons_cons _, .cons hxy hrelated⟩
  obtain ⟨others, hothers, hrelated⟩ := hkept
  obtain ⟨permuted, hpermuted, hothersPerm⟩ := List.perm_comp_forall₂ hperm.symm hrelated.flip
  exact ⟨permuted, hothersPerm.subperm.trans hothers.subperm, hpermuted.flip⟩

/-- A computation whose value is known has succeeded. -/
theorem eq_ok_of_toOption {x : Except ε α} {a : α} (h : x.toOption = some a) :
    x = .ok a := by
  cases x with
  | error e => exact nomatch h
  | ok b => exact congrArg Except.ok (Option.some.inj h)

/-- What is a result has a value. -/
theorem exists_eq_ok_of_isOk {x : Except ε α} (h : x.isOk = true) :
    ∃ a, x = .ok a := by
  cases x with
  | error e => exact nomatch h
  | ok a => exact ⟨a, rfl⟩

theorem exists_eq_error_of_isOk {x : Except ε α} (h : x.isOk = false) :
    ∃ e, x = .error e := by
  cases x with
  | error e => exact ⟨e, rfl⟩
  | ok a => exact nomatch h

-- ── Computations that agree ─────────────────────────────────────────────────

variable {α' β' : Type}

/-- Both fail for the same reason, or both succeed with related results. -/
inductive Agree (R : α → β → Prop) : Except ε α → Except ε β → Prop where
  | error (e : ε) : Agree R (.error e) (.error e)
  | ok {a : α} {b : β} : R a b → Agree R (.ok a) (.ok b)

namespace Agree

variable {R : α → β → Prop} {x : Except ε α} {y : Except ε β}

theorem rfl {R : α → α → Prop} (hR : ∀ a, R a a) (x : Except ε α) : Agree R x x := by
  cases x with
  | error e => exact .error e
  | ok a => exact .ok (hR a)

/-- The results are those of the computations. -/
theorem attach (h : Agree R x y) : Agree (fun a b => x = .ok a ∧ y = .ok b ∧ R a b) x y := by
  cases h with
  | error e => exact .error e
  | ok h => exact .ok ⟨Eq.refl _, Eq.refl _, h⟩

/-- Computations agree in whatever follows from how they are related. -/
theorem mono {S : α → β → Prop} (h : Agree R x y) (hS : ∀ a b, R a b → S a b) : Agree S x y := by
  cases h with
  | error e => exact .error e
  | ok h => exact .ok (hS _ _ h)

/-- Computations that go on in ways that agree on related results agree. -/
theorem bind {S : α' → β' → Prop} (h : Agree R x y) {f : α → Except ε α'} {g : β → Except ε β'}
    (hnext : ∀ a b, R a b → Agree S (f a) (g b)) : Agree S (x >>= f) (y >>= g) := by
  cases h with
  | error e => exact .error e
  | ok h => exact hnext _ _ h

end Agree

end DocQuery
