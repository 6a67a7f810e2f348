import DocQuery.Proofs.Plan.Alike
import DocQuery.Proofs.Engine.Prepared

/-!
# The order of operands does not matter to a plan

A condition is rearranged by exchanging operands of conjunctions and disjunctions and by
regrouping nested ones. The planner takes bounds from the conjuncts in order, the first that
fits, so the bounds and residuals of a rearranged condition are others. What is the same is the
sense of each conjunct, which is all that matters to the course of planning: on which field and
from which side it can be a bound, which one table it reads, and which rows it admits
(`Condition.Rearranged.senses`). The walk over an index goes by the senses without regard to
their order (`walk_agree`), and conjuncts of the same senses have plans that are alike, or
that fail alike (`Select.plan_agree`).
-/

namespace DocQuery

-- ── Rearranged conditions ───────────────────────────────────────────────────

/-- One condition is the other with operands of conjunctions and disjunctions exchanged and
    nested ones regrouped, any number of times and at any depth. -/
inductive Condition.Rearranged : Condition → Condition → Prop where
  | refl (c : Condition) : Rearranged c c
  | symm {c d : Condition} : Rearranged c d → Rearranged d c
  | trans {c d e : Condition} : Rearranged c d → Rearranged d e → Rearranged c e
  | and {a b c d : Condition} : Rearranged a c → Rearranged b d →
      Rearranged (.and a b) (.and c d)
  | or {a b c d : Condition} : Rearranged a c → Rearranged b d → Rearranged (.or a b) (.or c d)
  | andComm (a b : Condition) : Rearranged (.and a b) (.and b a)
  | orComm (a b : Condition) : Rearranged (.or a b) (.or b a)
  | andAssoc (a b c : Condition) : Rearranged (.and (.and a b) c) (.and a (.and b c))
  | orAssoc (a b c : Condition) : Rearranged (.or (.or a b) c) (.or a (.or b c))

namespace Condition.Rearranged

variable {c d : Condition}

/-- A rearranged condition has the same comparisons. -/
theorem comparisons_perm (h : c.Rearranged d) : c.comparisons.Perm d.comparisons := by
  induction h with
  | refl => exact List.Perm.refl _
  | symm _ ih => exact ih.symm
  | trans _ _ ih₁ ih₂ => exact ih₁.trans ih₂
  | and _ _ iha ihb => exact iha.append ihb
  | or _ _ iha ihb => exact iha.append ihb
  | andComm => exact List.perm_append_comm
  | orComm => exact List.perm_append_comm
  | andAssoc => exact List.Perm.of_eq (List.append_assoc _ _ _)
  | orAssoc => exact List.Perm.of_eq (List.append_assoc _ _ _)

/-- A rearranged condition holds for the same rows. -/
theorem holds_eq (h : c.Rearranged d) (row : Row) (t : String) :
    c.holds row t = d.holds row t := by
  induction h with
  | refl => rfl
  | symm _ ih => exact ih.symm
  | trans _ _ ih₁ ih₂ => exact ih₁.trans ih₂
  | and _ _ iha ihb => rw [holds, holds, iha, ihb]
  | or _ _ iha ihb => rw [holds, holds, iha, ihb]
  | andComm => exact Bool.and_comm _ _
  | orComm => exact Bool.or_comm _ _
  | andAssoc => exact Bool.and_assoc _ _ _
  | orAssoc => exact Bool.or_assoc _ _ _

/-- So does its filter. -/
theorem holds_toFilter_eq (h : c.Rearranged d) (row : Row) :
    c.toFilter.holds row = d.toFilter.holds row := by
  induction h with
  | refl => rfl
  | symm _ ih => exact ih.symm
  | trans _ _ ih₁ ih₂ => exact ih₁.trans ih₂
  | and _ _ iha ihb => rw [toFilter, toFilter, Filter.holds, Filter.holds, iha, ihb]
  | or _ _ iha ihb => rw [toFilter, toFilter, Filter.holds, Filter.holds, iha, ihb]
  | andComm => exact Bool.and_comm _ _
  | orComm => exact Bool.or_comm _ _
  | andAssoc => exact Bool.and_assoc _ _ _
  | orAssoc => exact Bool.or_assoc _ _ _

end Condition.Rearranged

-- ── The sense of a conjunct ─────────────────────────────────────────────────

/-- The ways to bound a field: by one value, from below, from above. -/
inductive BoundSide where
  | exact
  | lower
  | upper
  deriving DecidableEq

namespace BoundSide

/-- The comparisons that bound a field from the side. -/
def accepts : BoundSide → Operator → Bool
  | .exact => (· == .eq)
  | .lower => AccessPath.isLower
  | .upper => AccessPath.isUpper

/-- The side from which a comparison bounds a field. -/
def ofOperator? : Operator → Option BoundSide
  | .eq => some .exact
  | .gt => some .lower
  | .gtEq => some .lower
  | .lt => some .upper
  | .ltEq => some .upper
  | .notEq => none

end BoundSide

namespace Condition

/-- The field that a condition can bound, and from which side. -/
def bounding? : Condition → Option (String × BoundSide)
  | .compare ⟨.column _ field, op, _⟩ => (BoundSide.ofOperator? op).map fun side => (field, side)
  | _ => none

/-- What counts of a conjunct in planning and running: the field that it can bound, the one
    table that it reads, and the rows for which its filter and the condition itself hold. -/
structure Sense where
  bounding? : Option (String × BoundSide)
  soleTable? : String → Option String
  admits : Row → Bool
  holds : Row → String → Bool

/-- The sense of a conjunct. -/
def sense (c : Condition) : Sense where
  bounding? := c.bounding?
  soleTable? := c.soleTable?
  admits row := c.toFilter.holds row
  holds row t := c.holds row t

/-- A condition has a sole table if it reads this one and no other. -/
theorem soleTable?_eq_some_iff {c : Condition} {d t : String} :
    c.soleTable? d = some t ↔ c.tablesRead d ≠ [] ∧ ∀ u ∈ c.tablesRead d, u = t := by
  rw [soleTable?]
  cases htables : c.tablesRead d with
  | nil => simp
  | cons u us =>
      dsimp only
      by_cases hall : us.all (· == u) = true
      · rw [if_pos hall, Option.some.injEq]
        have hmem : ∀ v ∈ us, v = u := fun v hv => beq_iff_eq.mp (List.all_eq_true.mp hall v hv)
        constructor
        · rintro rfl
          exact ⟨List.cons_ne_nil _ _, List.forall_mem_cons.mpr ⟨rfl, hmem⟩⟩
        · rintro ⟨-, h⟩
          exact h u List.mem_cons_self
      · rw [if_neg hall]
        constructor
        · intro h
          exact nomatch h
        · rintro ⟨-, h⟩
          refine absurd (List.all_eq_true.mpr ?_) hall
          intro v hv
          rw [h v (List.mem_cons_of_mem _ hv), h u List.mem_cons_self]
          exact beq_self_eq_true t

/-- The one table that a condition reads does not depend on the order of its comparisons. -/
theorem soleTable?_congr {c d : Condition} (h : c.comparisons.Perm d.comparisons) :
    c.soleTable? = d.soleTable? := by
  funext defaultTable
  have htables : (c.tablesRead defaultTable).Perm (d.tablesRead defaultTable) := h.map _
  refine Option.ext fun t => ?_
  rw [soleTable?_eq_some_iff, soleTable?_eq_some_iff, ← List.length_pos_iff,
    ← List.length_pos_iff, htables.length_eq]
  exact and_congr Iff.rfl (forall_congr' fun u => imp_congr htables.mem_iff Iff.rfl)

/-- Disjunctions that are rearranged have one sense. -/
theorem sense_or {a b c d : Condition} (h : (Condition.or a b).Rearranged (.or c d)) :
    (Condition.or a b).sense = (Condition.or c d).sense := by
  rw [sense, sense, soleTable?_congr h.comparisons_perm, funext h.holds_toFilter_eq,
    funext₂ h.holds_eq]
  rfl

/-- The conjuncts of a rearranged condition have the same senses, in some order. -/
theorem Rearranged.senses {c d : Condition} (h : c.Rearranged d) :
    (c.conjuncts.map sense).Perm (d.conjuncts.map sense) := by
  induction h with
  | refl => exact List.Perm.refl _
  | symm _ ih => exact ih.symm
  | trans _ _ ih₁ ih₂ => exact ih₁.trans ih₂
  | and _ _ iha ihb =>
      rw [conjuncts, conjuncts, List.map_append, List.map_append]
      exact iha.append ihb
  | or ha hb => exact List.Perm.of_eq (congrArg ([·]) (sense_or (ha.or hb)))
  | andComm =>
      rw [conjuncts, conjuncts, List.map_append, List.map_append]
      exact List.perm_append_comm
  | orComm a b => exact List.Perm.of_eq (congrArg ([·]) (sense_or (.orComm a b)))
  | andAssoc =>
      rw [conjuncts, conjuncts, conjuncts, conjuncts, List.append_assoc]
  | orAssoc a b c => exact List.Perm.of_eq (congrArg ([·]) (sense_or (.orAssoc a b c)))

/-- The two lists have conjuncts of the same senses, in some order. -/
def SameSenses (cs ds : List Condition) : Prop :=
  (cs.map sense).Perm (ds.map sense)

variable {cs ds : List Condition}

/-- What holds of all senses on one side does on the other. -/
theorem SameSenses.all (h : SameSenses cs ds) (p : Sense → Bool) :
    cs.all (fun c => p c.sense) = ds.all fun c => p c.sense := by
  have hall : ∀ l : List Condition, l.all (fun c => p c.sense) = (l.map sense).all p :=
    fun l => List.all_map.symm
  rw [hall, hall]
  exact h.all_eq

/-- A selection by sense keeps the senses the same. -/
theorem SameSenses.filter (h : SameSenses cs ds) (p : Sense → Bool) :
    SameSenses (cs.filter fun c => p c.sense) (ds.filter fun c => p c.sense) := by
  have hfilter : ∀ l : List Condition,
      (l.filter fun c => p c.sense).map sense = (l.map sense).filter p := by
    intro l
    rw [List.filter_map]
    rfl
  rw [SameSenses, hfilter, hfilter]
  exact List.Perm.filter p h

/-- Conditions of the same senses bound the same fields on the same sides. -/
theorem SameSenses.bounding (h : SameSenses cs ds) :
    (cs.map bounding?).Perm (ds.map bounding?) := by
  have hmap : ∀ l : List Condition, l.map bounding? = (l.map sense).map Sense.bounding? := by
    intro l
    rw [List.map_map]
    rfl
  rw [hmap, hmap]
  exact List.Perm.map _ h

/-- The filters made of conditions of the same senses agree. -/
theorem SameSenses.all_holds_toFilter? (h : SameSenses cs ds) (row : Row) :
    (toFilter? cs).all (·.holds row) = (toFilter? ds).all (·.holds row) := by
  rw [Condition.all_holds_toFilter?, Condition.all_holds_toFilter?]
  exact h.all (·.admits row)

/-- The conjunctions of conditions of the same senses agree. -/
theorem SameSenses.all_holds_all? (h : SameSenses cs ds) (row : Row) (t : String) :
    (all? cs).all (·.holds row t) = (all? ds).all (·.holds row t) := by
  rw [Condition.all_holds_all?, Condition.all_holds_all?]
  exact h.all (·.holds row t)

end Condition

-- ── The walk over an index ──────────────────────────────────────────────────

namespace AccessPath

variable {field index : String} {cs ds : List Condition}

/-- A condition makes a bound on a field from a side just when that is what it can bound. -/
theorem isSome_boundOn? (field : String) (side : BoundSide) (c : Condition) :
    (boundOn? field side.accepts c).isSome = (c.bounding? == some (field, side)) := by
  rcases c with _ | _ | ⟨_ | _, op, value⟩
  · rfl
  · rfl
  · rename_i table f
    rw [boundOn?]
    by_cases hf : f = field
    · subst hf
      cases side <;> cases op <;>
        simp [Condition.bounding?, BoundSide.accepts, BoundSide.ofOperator?, BoundOp.ofOperator?,
          isLower, isUpper]
    · rw [if_neg fun h => hf h.1]
      cases op <;> simp [Condition.bounding?, BoundSide.ofOperator?, hf]
  · rfl

/-- Whether a condition bounds a field does not depend on the side. -/
theorem isSome_boundOn?_ne (field : String) (c : Condition) :
    (boundOn? field (· != .notEq) c).isSome = c.bounding?.any (·.1 == field) := by
  rcases c with _ | _ | ⟨_ | _, op, value⟩
  · rfl
  · rfl
  · rename_i table f
    rw [boundOn?]
    by_cases hf : f = field
    · subst hf
      cases op <;>
        simp [Condition.bounding?, BoundSide.ofOperator?, BoundOp.ofOperator?]
    · rw [if_neg fun h => hf h.1]
      cases op <;> simp [Condition.bounding?, BoundSide.ofOperator?, hf]
  · rfl

/-- A bound is taken if some condition can make it, and one such condition is gone then. -/
theorem takeBound_bounding (field : String) (side : BoundSide) (cs : List Condition) :
    (takeBound (boundOn? field side.accepts) cs).1.isSome
        = (cs.map Condition.bounding?).contains (some (field, side)) ∧
      (takeBound (boundOn? field side.accepts) cs).2.map Condition.bounding?
        = (cs.map Condition.bounding?).erase (some (field, side)) := by
  induction cs with
  | nil => exact ⟨rfl, rfl⟩
  | cons c cs ih =>
      have hc := isSome_boundOn? field side c
      rw [takeBound, List.map_cons, List.contains_cons, List.erase_cons]
      cases hbound : boundOn? field side.accepts c with
      | some b =>
          rw [hbound] at hc
          rw [← hc, Bool.beq_comm, ← hc]
          exact ⟨rfl, rfl⟩
      | none =>
          rw [hbound] at hc
          rw [← hc, Bool.beq_comm, ← hc]
          exact ⟨ih.1, congrArg _ ih.2⟩

/-- Of conditions that can bound the same fields the same bounds are taken and left. -/
theorem takeBound_perm (field : String) (side : BoundSide)
    (h : (cs.map Condition.bounding?).Perm (ds.map Condition.bounding?)) :
    (takeBound (boundOn? field side.accepts) cs).1.isSome
        = (takeBound (boundOn? field side.accepts) ds).1.isSome ∧
      ((takeBound (boundOn? field side.accepts) cs).2.map Condition.bounding?).Perm
        ((takeBound (boundOn? field side.accepts) ds).2.map Condition.bounding?) := by
  obtain ⟨htaken, hleft⟩ := takeBound_bounding field side cs
  obtain ⟨htaken', hleft'⟩ := takeBound_bounding field side ds
  rw [htaken, htaken', hleft, hleft']
  exact ⟨h.contains_eq, h.erase _⟩

/-- The fields that conditions constrain do not depend on their order. -/
theorem constrains_perm (h : (cs.map Condition.bounding?).Perm (ds.map Condition.bounding?)) :
    constrains cs = constrains ds := by
  have hmap : ∀ (l : List Condition) (field : String), constrains l field
      = (l.map Condition.bounding?).any fun b => b.any (·.1 == field) := by
    intro l field
    rw [constrains, List.any_map]
    exact congrArg (l.any ·) (funext fun c => isSome_boundOn?_ne field c)
  funext field
  rw [hmap, hmap]
  exact h.any_eq

/-- The field of a bound that is taken is known. -/
theorem map_field_toList {side : BoundSide} :
    (takeBound (boundOn? field side.accepts) cs).1.toList.map Bound.field
      = if (takeBound (boundOn? field side.accepts) cs).1.isSome then [field] else [] := by
  have hfield := (takeBound_spec field side.accepts cs).1
  cases htaken : (takeBound (boundOn? field side.accepts) cs).1 with
  | none => rfl
  | some b => exact congrArg ([·]) (hfield b htaken)

/-- The end of a walk, at a field without an equality: what bounds the field from below and from
    above, unless that is nothing and fields are left, or a later field could be bounded too. -/
def endWalk (index field : String) (fields : List String) (conditions : List Condition) :
    Except QueryError (IndexRange × List Condition) :=
  let lower := takeBound (boundOn? field (BoundSide.accepts .lower)) conditions
  let upper := takeBound (boundOn? field (BoundSide.accepts .upper)) lower.2
  if lower.1.isNone && upper.1.isNone && !fields.isEmpty then
    .error (.missingLeadingCondition index field)
  else if fields.any (constrains upper.2) then .error (.rangeNotLast index field)
  else .ok (lower.1.toList ++ upper.1.toList, upper.2)

/-- A walk takes an equality on the next field, or ends there. -/
theorem walk_cons (index field : String) (fields : List String) (conditions : List Condition) :
    walk index (field :: fields) conditions =
      match takeBound (boundOn? field (BoundSide.accepts .exact)) conditions with
      | (some b, rest) => do
        let (bounds, residual) ← walk index fields rest
        .ok (b :: bounds, residual)
      | (none, _) => endWalk index field fields conditions :=
  rfl

/-- Where a walk ends, conditions that bound the same fields end it alike. -/
theorem endWalk_agree (index field : String) (fields : List String)
    (h : (cs.map Condition.bounding?).Perm (ds.map Condition.bounding?)) :
    Agree (fun r r' => r.1.map Bound.field = r'.1.map Bound.field) (endWalk index field fields cs)
      (endWalk index field fields ds) := by
  obtain ⟨hlower, hrest⟩ := takeBound_perm field .lower h
  obtain ⟨hupper, hresidual⟩ := takeBound_perm field .upper hrest
  rw [endWalk, endWalk, ← Option.not_isSome, ← Option.not_isSome, hlower, hupper,
    constrains_perm hresidual, ← Option.not_isSome, ← Option.not_isSome]
  split
  · exact .error _
  · split
    · exact .error _
    · refine .ok ?_
      rw [List.map_append, List.map_append, map_field_toList, map_field_toList, map_field_toList,
        map_field_toList, hlower, hupper]

/-- The walk depends on what the conditions can bound, not on their order: it fails for the same
    field, or takes bounds on the same fields. -/
theorem walk_agree (index : String) (fields : List String)
    (h : (cs.map Condition.bounding?).Perm (ds.map Condition.bounding?)) :
    Agree (fun r r' => r.1.map Bound.field = r'.1.map Bound.field) (walk index fields cs)
      (walk index fields ds) := by
  induction fields generalizing cs ds with
  | nil => exact .ok rfl
  | cons field fields ih =>
      obtain ⟨htaken, hleft⟩ := takeBound_perm field .exact h
      have hfield := (takeBound_spec field (BoundSide.accepts .exact) cs).1
      have hfield' := (takeBound_spec field (BoundSide.accepts .exact) ds).1
      rw [walk_cons, walk_cons]
      rcases hcs : takeBound (boundOn? field (BoundSide.accepts .exact)) cs with ⟨_ | b, rest⟩ <;>
        rcases hds : takeBound (boundOn? field (BoundSide.accepts .exact)) ds
          with ⟨_ | b', rest'⟩ <;>
        rw [hcs, hds] at htaken hleft
      · exact endWalk_agree index field fields h
      · exact nomatch htaken
      · exact nomatch htaken
      · rw [hcs] at hfield
        rw [hds] at hfield'
        refine (ih hleft).bind ?_
        intro r r' hr
        refine .ok ?_
        rw [List.map_cons, List.map_cons, hfield b rfl, hfield' b' rfl, hr]

/-- Reads through an index are planned alike for conjuncts of the same senses. -/
theorem throughIndex_agree (schema : Schema) (table index : String)
    (h : Condition.SameSenses cs ds) :
    Agree Alike (throughIndex schema table index cs) (throughIndex schema table index ds) := by
  rw [throughIndex, throughIndex]
  cases schema.indexFields? table index with
  | none => exact .error _
  | some fields =>
      refine (walk_agree index fields h.bounding).attach.bind ?_
      rintro ⟨range, residual⟩ ⟨range', residual'⟩ ⟨hwalk, hwalk', hfields⟩
      refine .ok (.index hfields ?_)
      intro row
      rw [Condition.all_holds_toFilter?, Condition.all_holds_toFilter?, (walk_spec hwalk).2,
        (walk_spec hwalk').2]
      exact h.all (·.admits row)

theorem Alike.ofConditions (h : Condition.SameSenses cs ds) :
    Alike (.fullScan (Condition.toFilter? cs)) (.fullScan (Condition.toFilter? ds)) :=
  .fullScan h.all_holds_toFilter?

end AccessPath

-- ── Plans of a rearranged query ─────────────────────────────────────────────

variable {schema : Schema} {cs ds : List Condition}

/-- The paths to a joined table are alike. -/
theorem JoinPlan.accessFor_alike (schema : Schema) (join : Join)
    (h : Condition.SameSenses cs ds) :
    (accessFor schema join cs).Alike (accessFor schema join ds) := by
  rw [accessFor, accessFor]
  cases join.indexHint with
  | none => exact .ofConditions h
  | some index =>
      dsimp only
      have hagree := AccessPath.throughIndex_agree schema join.table index h
      generalize AccessPath.throughIndex schema join.table index cs = x at hagree ⊢
      generalize AccessPath.throughIndex schema join.table index ds = y at hagree ⊢
      cases hagree with
      | error e => exact .ofConditions h
      | ok halike => exact halike

/-- The plans of a join are alike, and refused alike. -/
theorem JoinPlan.ofJoin_agree (schema : Schema) (joined : List String) (join : Join)
    (h : Condition.SameSenses cs ds) :
    Agree Alike (ofJoin schema joined cs join) (ofJoin schema joined ds join) := by
  rw [ofJoin, ofJoin]
  split
  · exact .error _
  · exact .ok ⟨rfl, accessFor_alike schema join h, h.all_holds_toFilter?, rfl, rfl⟩

namespace Select

/-- The query with another condition on rows. -/
def withFilter (s : Select) (c : Condition) : Select :=
  { s with filter := some c }

variable {c d : Condition} {s : Select}

/-- What is tested on a joined table keeps its sense. -/
theorem joinedConjuncts_senses (h : c.Rearranged d) (table : String) :
    Condition.SameSenses ((s.withFilter c).joinedConjuncts table)
      ((s.withFilter d).joinedConjuncts table) :=
  Condition.SameSenses.filter h.senses fun sense =>
    sense.soleTable? s.source == some table && table != s.source

/-- The plans of all joins are alike, by induction on the joins. -/
theorem planJoins_agree (schema : Schema) (h : c.Rearranged d) (joined : List String)
    (joins : List Join) :
    Agree (List.Forall₂ JoinPlan.Alike) ((s.withFilter c).planJoins schema joined joins)
      ((s.withFilter d).planJoins schema joined joins) := by
  induction joins generalizing joined with
  | nil => exact .ok .nil
  | cons join joins ih =>
      rw [planJoins, planJoins]
      refine (JoinPlan.ofJoin_agree schema joined join
        (joinedConjuncts_senses h join.table)).bind ?_
      intro p p' hp
      refine (ih _).bind ?_
      intro ps ps' hps
      exact .ok (.cons hp hps)

/-- The path to the table that is selected from is alike. -/
theorem planAccess_agree (schema : Schema) (h : c.Rearranged d) :
    Agree AccessPath.Alike ((s.withFilter c).planAccess schema)
      ((s.withFilter d).planAccess schema) := by
  have hsource : Condition.SameSenses (s.withFilter c).sourceConjuncts
      (s.withFilter d).sourceConjuncts :=
    Condition.SameSenses.filter h.senses fun sense =>
      sense.soleTable? s.source == some s.source
  have hc : (s.withFilter c).indexHint = s.indexHint := rfl
  have hd : (s.withFilter d).indexHint = s.indexHint := rfl
  rw [planAccess, planAccess, hc, hd]
  cases s.indexHint with
  | none => exact .ok (.ofConditions hsource)
  | some index => exact AccessPath.throughIndex_agree schema s.source index hsource

/-- The order is made the same way whichever of the paths is taken. -/
theorem orderStrategy_alike {access access' : AccessPath} (h : access.Alike access') :
    (s.withFilter c).orderStrategy access = (s.withFilter d).orderStrategy access' := by
  rw [orderStrategy, orderStrategy, h.nativeField?]
  rfl

/-- Plans of a query with a rearranged condition are alike, or fail alike. -/
theorem plan_agree (schema : Schema) (h : c.Rearranged d) :
    Agree Plan.Alike ((s.withFilter c).plan schema) ((s.withFilter d).plan schema) := by
  have hcross : Condition.SameSenses (s.withFilter c).crossConjuncts
      (s.withFilter d).crossConjuncts :=
    Condition.SameSenses.filter h.senses fun sense => sense.soleTable? s.source == none
  rw [plan, plan]
  refine (Agree.rfl (fun _ => Eq.refl _) (s.checkTables schema)).bind ?_
  intro _ _ _
  refine (planAccess_agree schema h).bind ?_
  intro access access' haccess
  refine (planJoins_agree schema h _ _).bind ?_
  intro joins joins' hjoins
  exact .ok ⟨rfl, haccess, orderStrategy_alike haccess, hjoins,
    fun row => hcross.all_holds_all? row s.source⟩

end Select

end DocQuery
