import DocQuery.Filter
import DocQuery.IndexRange
import DocQuery.Proofs.Row

/-!
# Conditions and filters hold conjunct by conjunct

A condition holds when all its conjuncts do, and so does the filter that a list of
conditions becomes. What a condition says of a row depends on the values that its
comparisons resolve to, and nothing else (`Condition.holds_congr`).
-/

namespace DocQuery

variable {row row' : Row} {t t' : String}

-- ── Conjunctions ────────────────────────────────────────────────────────────

/-- Tests that agree on the members agree on all of them. -/
theorem all_congr_of_mem {α : Type} {l : List α} {p q : α → Bool} (h : ∀ x ∈ l, p x = q x) :
    l.all p = l.all q := by
  induction l with
  | nil => rfl
  | cons x xs ih =>
      rw [List.all_cons, List.all_cons, h x List.mem_cons_self,
        ih fun y hy => h y (List.mem_cons_of_mem _ hy)]

theorem any_congr_of_mem {α : Type} {l : List α} {p q : α → Bool} (h : ∀ x ∈ l, p x = q x) :
    l.any p = l.any q := by
  rw [List.any_eq_not_all_not, List.any_eq_not_all_not]
  refine congrArg not (all_congr_of_mem ?_)
  intro x hx
  rw [h x hx]

namespace Filter

theorem holds_foldl_and (fs : List Filter) (f : Filter) :
    (fs.foldl .and f).holds row = (f.holds row && fs.all (·.holds row)) := by
  induction fs generalizing f with
  | nil => simp
  | cons g gs ih =>
      rw [List.foldl_cons, ih, List.all_cons, ← Bool.and_assoc]
      rfl

/-- A conjunction holds if all its parts do. -/
@[simp] theorem all_holds_all? (fs : List Filter) :
    (all? fs).all (·.holds row) = fs.all (·.holds row) := by
  cases fs with
  | nil => rfl
  | cons f fs => exact holds_foldl_and fs f

end Filter

namespace Condition

theorem holds_foldl_and (cs : List Condition) (c : Condition) :
    (cs.foldl .and c).holds row t = (c.holds row t && cs.all (·.holds row t)) := by
  induction cs generalizing c with
  | nil => simp
  | cons d ds ih =>
      rw [List.foldl_cons, ih, List.all_cons, ← Bool.and_assoc]
      rfl

/-- A conjunction holds if all its parts do. -/
@[simp] theorem all_holds_all? (cs : List Condition) :
    (all? cs).all (·.holds row t) = cs.all (·.holds row t) := by
  cases cs with
  | nil => rfl
  | cons c cs => exact holds_foldl_and cs c

/-- A condition holds when all its conjuncts do. -/
theorem all_holds_conjuncts (c : Condition) :
    c.conjuncts.all (·.holds row t) = c.holds row t := by
  induction c with
  | and left right ihl ihr => rw [conjuncts, List.all_append, ihl, ihr, holds]
  | or left right => exact Bool.and_true _
  | compare c => exact Bool.and_true _

/-- So does its filter. -/
theorem all_holds_toFilter_conjuncts (c : Condition) :
    c.conjuncts.all (·.toFilter.holds row) = c.toFilter.holds row := by
  induction c with
  | and left right ihl ihr => rw [conjuncts, List.all_append, ihl, ihr, toFilter, Filter.holds]
  | or left right => exact Bool.and_true _
  | compare c => exact Bool.and_true _

/-- A filter made of conditions holds if each of them, as a filter, does. -/
@[simp] theorem all_holds_toFilter? (cs : List Condition) :
    (toFilter? cs).all (·.holds row) = cs.all (·.toFilter.holds row) := by
  rw [toFilter?, Filter.all_holds_all?, List.all_map]
  rfl

-- ── What a condition depends on ─────────────────────────────────────────────

/-- A condition says the same of rows in which its comparisons resolve to one value. -/
theorem holds_congr {c : Condition}
    (h : ∀ cmp ∈ c.comparisons, row.resolve cmp.subject.table? cmp.subject.field t
      = row'.resolve cmp.subject.table? cmp.subject.field t') :
    c.holds row t = c.holds row' t' := by
  induction c with
  | and left right ihl ihr =>
      rw [holds, holds, ihl fun cmp hc => h cmp (List.mem_append_left _ hc),
        ihr fun cmp hc => h cmp (List.mem_append_right _ hc)]
  | or left right ihl ihr =>
      rw [holds, holds, ihl fun cmp hc => h cmp (List.mem_append_left _ hc),
        ihr fun cmp hc => h cmp (List.mem_append_right _ hc)]
  | compare c => rw [holds, holds, h c (List.mem_singleton_self c)]

/-- The truth of a condition whose subjects have the values that are read for them. -/
def evaluate (read : Subject → Value) : Condition → Bool
  | .and left right => left.evaluate read && right.evaluate read
  | .or left right => left.evaluate read || right.evaluate read
  | .compare c => c.operator.holds (read c.subject) c.value

/-- A condition says of a row what is true of the values that its comparisons resolve to. -/
theorem holds_eq_evaluate {c : Condition} {read : Subject → Value}
    (h : ∀ cmp ∈ c.comparisons, row.resolve cmp.subject.table? cmp.subject.field t
      = read cmp.subject) : c.holds row t = c.evaluate read := by
  induction c with
  | and left right ihl ihr =>
      rw [holds, evaluate, ihl fun cmp hc => h cmp (List.mem_append_left _ hc),
        ihr fun cmp hc => h cmp (List.mem_append_right _ hc)]
  | or left right ihl ihr =>
      rw [holds, evaluate, ihl fun cmp hc => h cmp (List.mem_append_left _ hc),
        ihr fun cmp hc => h cmp (List.mem_append_right _ hc)]
  | compare c => rw [holds, evaluate, h c (List.mem_singleton_self c)]

/-- The filter of a condition says of a stored row what is true of its fields. -/
theorem holds_toFilter_eq_evaluate {c : Condition} {read : Subject → Value}
    (h : ∀ cmp ∈ c.comparisons, row.value cmp.subject.field = read cmp.subject) :
    c.toFilter.holds row = c.evaluate read := by
  induction c with
  | and left right ihl ihr =>
      rw [toFilter, Filter.holds, evaluate, ihl fun cmp hc => h cmp (List.mem_append_left _ hc),
        ihr fun cmp hc => h cmp (List.mem_append_right _ hc)]
  | or left right ihl ihr =>
      rw [toFilter, Filter.holds, evaluate, ihl fun cmp hc => h cmp (List.mem_append_left _ hc),
        ihr fun cmp hc => h cmp (List.mem_append_right _ hc)]
  | compare c => rw [toFilter, Filter.holds, evaluate, h c (List.mem_singleton_self c)]

/-- The filter of a condition says of a stored row what the condition says of a row in
    which its comparisons resolve to the stored fields. -/
theorem holds_toFilter_eq {c : Condition}
    (h : ∀ cmp ∈ c.comparisons, row.value cmp.subject.field
      = row'.resolve cmp.subject.table? cmp.subject.field t) :
    c.toFilter.holds row = c.holds row' t := by
  have hread : c.toFilter.holds row = c.evaluate fun x => row'.resolve x.table? x.field t :=
    holds_toFilter_eq_evaluate h
  exact hread.trans (holds_eq_evaluate fun _ _ => rfl).symm

/-- The comparisons of a conjunct are among those of the whole. -/
theorem mem_comparisons_of_mem_conjuncts {c d : Condition} (h : d ∈ c.conjuncts) :
    ∀ cmp ∈ d.comparisons, cmp ∈ c.comparisons := by
  intro cmp hcmp
  induction c with
  | and left right ihl ihr =>
      rcases List.mem_append.mp h with hl | hr
      · exact List.mem_append_left _ (ihl hl)
      · exact List.mem_append_right _ (ihr hr)
  | or left right => rwa [List.mem_singleton.mp h] at hcmp
  | compare c => rwa [List.mem_singleton.mp h] at hcmp

end Condition

-- ── Bounds ──────────────────────────────────────────────────────────────────

namespace IndexRange

@[simp] theorem holds_nil : holds row [] = true :=
  rfl

@[simp] theorem holds_cons (b : Bound) (range : IndexRange) :
    holds row (b :: range) = (b.holds row && holds row range) :=
  rfl

@[simp] theorem holds_append (r₁ r₂ : IndexRange) :
    holds row (r₁ ++ r₂) = (holds row r₁ && holds row r₂) :=
  List.all_append

theorem holds_single (field : String) (value : Value) :
    (single field value).holds row = (row.value field).equal value := by
  rw [single, holds_cons, holds_nil, Bool.and_true]
  rfl

end IndexRange

end DocQuery
