import DocQuery.Proofs.Plan.Rearranged

/-!
# The rule by which an index serves conditions

The walk over an index removes a condition when it takes it as a bound, so what it looks at
changes from field to field. The rule speaks of the given conditions alone, by their places: a
bound on a field is made by the first condition that bounds it from that side. As the fields of
the index differ, no condition that is gone could have bounded a later field, which is the
invariant of the induction on the fields (`walk_remaining`). From it follows when the planner
refuses an index, for which field, and which bounds and residual it makes (`throughIndex_rule`).
-/

namespace DocQuery

/-- The bound that a condition makes, if it is itself a comparison of a column other than
    `!=`. -/
def Condition.bound? : Condition → Option Bound
  | .compare ⟨.column _ field, op, value⟩ =>
    (BoundOp.ofOperator? op).map fun bop => ⟨field, bop, value⟩
  | _ => none

namespace AccessPath

variable {conditions : List Condition} {index field : String} {side : BoundSide}
  {gone : List Nat} {fields : List String}

-- ── Places ──────────────────────────────────────────────────────────────────

/-- The place of the first condition that can bound the field from the side. -/
def place? (conditions : List Condition) (field : String) (side : BoundSide) : Option Nat :=
  conditions.findIdx? fun c => c.bounding? == some (field, side)

/-- The bound that this condition makes. -/
def firstBound? (conditions : List Condition) (field : String) (side : BoundSide) :
    Option Bound :=
  (place? conditions field side).bind fun i => conditions[i]?.bind Condition.bound?

/-- The conditions at other places, in their order. -/
def remaining (conditions : List Condition) (gone : List Nat) : List Condition :=
  (conditions.zipIdx.filter fun x => !gone.contains x.2).map Prod.fst

/-- None of the places has a condition that can bound one of the fields. -/
def Aside (conditions : List Condition) (fields : List String) (gone : List Nat) : Prop :=
  ∀ i ∈ gone, ∀ c, conditions[i]? = some c →
    ∀ f side, c.bounding? = some (f, side) → f ∉ fields

theorem remaining_nil (conditions : List Condition) : remaining conditions [] = conditions := by
  have hall : conditions.zipIdx.filter (fun x => !([] : List Nat).contains x.2)
      = conditions.zipIdx := List.filter_eq_self.mpr fun _ _ => rfl
  rw [remaining, hall, List.zipIdx_map_fst]

/-- A condition remains if its place is not among those that are gone. -/
theorem mem_remaining {c : Condition} :
    c ∈ remaining conditions gone ↔ ∃ i, conditions[i]? = some c ∧ i ∉ gone := by
  rw [remaining, List.mem_map]
  constructor
  · rintro ⟨x, hx, rfl⟩
    obtain ⟨hmem, hnot⟩ := List.mem_filter.mp hx
    rw [Bool.not_eq_true', ← Bool.not_eq_true, List.contains_iff_mem] at hnot
    exact ⟨x.2, List.mem_zipIdx_iff_getElem?.mp hmem, hnot⟩
  · rintro ⟨i, hget, hnot⟩
    refine ⟨(c, i), List.mem_filter.mpr ⟨List.mem_zipIdx_iff_getElem?.mpr hget, ?_⟩, rfl⟩
    rw [Bool.not_eq_true', ← Bool.not_eq_true, List.contains_iff_mem]
    exact hnot

/-- The condition at the place that was found bounds the field on this side. -/
theorem place?_eq_some {i : Nat} (h : place? conditions field side = some i) :
    ∃ c, conditions[i]? = some c ∧ c.bounding? = some (field, side) := by
  obtain ⟨hlt, hc, -⟩ := List.findIdx?_eq_some_iff_getElem.mp h
  exact ⟨conditions[i], List.getElem?_eq_getElem hlt, beq_iff_eq.mp hc⟩

/-- What can bound a field from a side is a comparison that makes a bound of that side. -/
theorem exists_bound?_of_bounding? {c : Condition} (h : c.bounding? = some (field, side)) :
    ∃ table op value, c = .compare ⟨.column table field, op, value⟩ ∧ op ≠ .notEq ∧
      ∃ b, c.bound? = some b ∧ b.field = field ∧ side.accepts b.op.toOperator = true := by
  rcases c with _ | _ | ⟨_ | _, op, value⟩
  · exact nomatch h
  · exact nomatch h
  · obtain ⟨side', hside, heq⟩ := Option.map_eq_some_iff.mp h
    obtain ⟨rfl, rfl⟩ := Prod.mk.inj heq
    refine ⟨_, op, value, rfl, ?_, ?_⟩
    · rintro rfl
      exact nomatch hside
    · cases op <;> cases hside <;> exact ⟨_, rfl, rfl, rfl⟩
  · exact nomatch h

/-- A bound that was found is one on this field and side. -/
theorem firstBound?_eq_some {b : Bound} (h : firstBound? conditions field side = some b) :
    b.field = field ∧ side.accepts b.op.toOperator = true := by
  obtain ⟨i, hi, h⟩ := Option.bind_eq_some_iff.mp h
  obtain ⟨c, hc, hbounding⟩ := place?_eq_some hi
  obtain ⟨-, -, -, -, -, b', hb', hspec⟩ := exists_bound?_of_bounding? hbounding
  rw [hc, Option.bind_some, hb'] at h
  rw [← Option.some.inj h]
  exact hspec

/-- A bound is found where there is a place. -/
theorem isSome_firstBound? (conditions : List Condition) (field : String) (side : BoundSide) :
    (firstBound? conditions field side).isSome = (place? conditions field side).isSome := by
  rw [firstBound?]
  cases hi : place? conditions field side with
  | none => rfl
  | some i =>
      obtain ⟨c, hc, hbounding⟩ := place?_eq_some hi
      obtain ⟨-, -, -, -, -, b, hb, -⟩ := exists_bound?_of_bounding? hbounding
      rw [Option.bind_some, hc, Option.bind_some, hb]
      rfl

-- ── Taking a bound ──────────────────────────────────────────────────────────

/-- A condition gives a bound on the field and the side that it bounds. -/
theorem boundOn?_eq (field : String) (side : BoundSide) (c : Condition) :
    boundOn? field side.accepts c
      = if c.bounding? == some (field, side) then c.bound? else none := by
  rw [← isSome_boundOn?]
  cases h : boundOn? field side.accepts c with
  | none => rfl
  | some b =>
      rw [Option.isSome_some, if_pos rfl, ← h]
      rcases c with _ | _ | ⟨_ | _, op, value⟩
      · rfl
      · rfl
      · rw [boundOn?] at h ⊢
        split
        · rfl
        · rename_i hnot
          rw [if_neg hnot] at h
          cases h
      · rfl

/-- Of conditions at different places a bound is made by the first that can, and the others
    are left. -/
theorem takeBound_placed {placed : List (Condition × Nat)}
    (hnodup : (placed.map Prod.snd).Nodup) :
    takeBound (boundOn? field side.accepts) (placed.map Prod.fst)
      = match placed.find? fun x => x.1.bounding? == some (field, side) with
        | some x => (x.1.bound?, (placed.filter fun y => y.2 != x.2).map Prod.fst)
        | none => (none, placed.map Prod.fst) := by
  induction placed with
  | nil => rfl
  | cons x placed ih =>
      rw [List.map_cons, List.nodup_cons] at hnodup
      rw [List.map_cons, takeBound, boundOn?_eq, List.find?_cons]
      cases hx : x.1.bounding? == some (field, side) with
      | true =>
          obtain ⟨-, -, -, -, -, b, hb, -⟩ := exists_bound?_of_bounding? (beq_iff_eq.mp hx)
          have hothers : placed.filter (fun y => y.2 != x.2) = placed := by
            refine List.filter_eq_self.mpr ?_
            intro y hy
            refine bne_iff_ne.mpr ?_
            intro heq
            exact hnodup.1 (heq ▸ List.mem_map_of_mem hy)
          rw [if_pos rfl, hb]
          dsimp only
          rw [List.filter_cons_of_neg (by simp), hothers, hb]
      | false =>
          rw [if_neg Bool.false_ne_true, ih hnodup.2]
          dsimp only
          cases hfind : placed.find? fun x => x.1.bounding? == some (field, side) with
          | none => rfl
          | some y =>
              have hne : x.2 ≠ y.2 := by
                intro heq
                exact hnodup.1 (heq ▸ List.mem_map_of_mem (List.mem_of_find?_eq_some hfind))
              dsimp only
              rw [List.filter_cons, if_pos (bne_iff_ne.mpr hne), List.map_cons]

/-- A filter that lets pass what is sought does not hide it. -/
theorem find?_filter_of_imp {α : Type} {p q : α → Bool} {l : List α}
    (h : ∀ x ∈ l, q x = true → p x = true) : (l.filter p).find? q = l.find? q := by
  induction l with
  | nil => rfl
  | cons x l ih =>
      have hl := ih fun y hy => h y (List.mem_cons_of_mem _ hy)
      cases hq : q x with
      | true =>
          have hp := h x List.mem_cons_self hq
          rw [List.filter_cons_of_pos hp, List.find?_cons_of_pos hq, List.find?_cons_of_pos hq]
      | false =>
          have hnot : ¬ q x = true := by rw [hq]; exact Bool.false_ne_true
          rw [List.find?_cons_of_neg hnot, List.filter_cons]
          split
          · rw [List.find?_cons_of_neg hnot, hl]
          · exact hl

/-- The bound that the walk takes is made by the first of the given conditions that can, unless
    that one is gone. -/
theorem takeBound_remaining (hgone : ∀ i ∈ gone, ∀ c, conditions[i]? = some c →
      c.bounding? ≠ some (field, side)) :
    takeBound (boundOn? field side.accepts) (remaining conditions gone)
      = (firstBound? conditions field side,
          remaining conditions (gone ++ (place? conditions field side).toList)) := by
  have hnodup : ((conditions.zipIdx.filter fun x => !gone.contains x.2).map Prod.snd).Nodup := by
    refine List.Nodup.sublist (List.filter_sublist.map Prod.snd) ?_
    rw [List.zipIdx_map_snd]
    exact List.nodup_range'
  have hfind : (conditions.zipIdx.filter fun x => !gone.contains x.2).find?
        (fun x => x.1.bounding? == some (field, side))
      = conditions.zipIdx.find? fun x => x.1.bounding? == some (field, side) := by
    refine find?_filter_of_imp ?_
    rintro ⟨c, i⟩ hmem hbounding
    rw [Bool.not_eq_true', ← Bool.not_eq_true, List.contains_iff_mem]
    intro hi
    exact hgone i hi c (List.mem_zipIdx_iff_getElem?.mp hmem) (beq_iff_eq.mp hbounding)
  rw [remaining, takeBound_placed hnodup, hfind, firstBound?, place?,
    List.findIdx?_eq_fst_find?_zipIdx]
  cases hx : conditions.zipIdx.find? fun x => x.1.bounding? == some (field, side) with
  | none =>
      dsimp only [Option.map_none, Option.toList_none, Option.bind_none]
      rw [List.append_nil, remaining]
  | some x =>
      have hget := List.mem_zipIdx_iff_getElem?.mp (List.mem_of_find?_eq_some hx)
      dsimp only [Option.map_some, Option.toList_some, Option.bind_some]
      rw [hget, Option.bind_some, remaining, List.filter_filter]
      refine congrArg (Prod.mk _) (congrArg (List.map Prod.fst) (List.filter_congr ?_))
      intro y _
      rw [List.contains_append, Bool.not_or, Bool.and_comm, List.contains_cons, List.contains_nil,
        Bool.or_false]
      rfl

-- ── Walking the fields ──────────────────────────────────────────────────────

/-- The field has an equality. -/
def equated (conditions : List Condition) (field : String) : Bool :=
  conditions.any fun c => c.bounding? == some (field, .exact)

/-- The field is bounded from below or from above. -/
def ranged (conditions : List Condition) (field : String) : Bool :=
  conditions.any fun c =>
    c.bounding? == some (field, .lower) || c.bounding? == some (field, .upper)

/-- Where bounds are looked for: each of the leading fields that have an equality is bounded by
    one value, and the field after them from below and from above. -/
def slots (conditions : List Condition) (fields : List String) : List (String × BoundSide) :=
  (fields.takeWhile (equated conditions)).map (fun f => (f, .exact))
    ++ (fields.dropWhile (equated conditions)).head?.toList.flatMap fun f =>
      [(f, .lower), (f, .upper)]

/-- The places of the conditions that become bounds. -/
def places (conditions : List Condition) (fields : List String) : List Nat :=
  (slots conditions fields).filterMap fun s => place? conditions s.1 s.2

/-- The bounds that these conditions make. -/
def bounds (conditions : List Condition) (fields : List String) : IndexRange :=
  (slots conditions fields).filterMap fun s => firstBound? conditions s.1 s.2

theorem equated_eq (conditions : List Condition) (field : String) :
    equated conditions field = (place? conditions field .exact).isSome := by
  rw [equated, place?, List.findIdx?_isSome]

/-- A field is ranged if a lower or an upper bound on it has a place. -/
theorem ranged_eq (conditions : List Condition) (field : String) :
    ranged conditions field
      = ((place? conditions field .lower).isSome || (place? conditions field .upper).isSome) := by
  rw [ranged, place?, place?, List.findIdx?_isSome, List.findIdx?_isSome, Bool.eq_iff_iff,
    Bool.or_eq_true, List.any_eq_true, List.any_eq_true, List.any_eq_true]
  simp only [Bool.or_eq_true, and_or_left, exists_or]

theorem filterMap_pair {α β : Type} (f : α → Option β) (x y : α) :
    [x, y].filterMap f = (f x).toList ++ (f y).toList := by
  rw [List.filterMap_cons, List.filterMap_cons, List.filterMap_nil]
  cases f x <;> cases f y <;> rfl

/-- An equated field has one slot, and the walk goes on. -/
theorem slots_cons_of_pos (h : equated conditions field = true) :
    slots conditions (field :: fields) = (field, .exact) :: slots conditions fields := by
  rw [slots, List.takeWhile_cons_of_pos h, List.dropWhile_cons_of_pos h]
  rfl

/-- A field that is not equated has two slots, and the walk ends. -/
theorem slots_cons_of_neg (h : ¬ equated conditions field = true) :
    slots conditions (field :: fields) = [(field, .lower), (field, .upper)] := by
  rw [slots, List.takeWhile_cons_of_neg h, List.dropWhile_cons_of_neg h]
  rfl

/-- A field is constrained if some condition bounds it. -/
theorem constrains_iff : constrains conditions field = true ↔
    ∃ c ∈ conditions, ∃ side, c.bounding? = some (field, side) := by
  rw [constrains, List.any_eq_true]
  refine exists_congr fun c => and_congr Iff.rfl ?_
  rw [isSome_boundOn?_ne, Option.any_eq_true]
  constructor
  · rintro ⟨⟨f, side⟩, h, hf⟩
    exact ⟨side, h.trans (congrArg (fun g => some (g, side)) (beq_iff_eq.mp hf))⟩
  · rintro ⟨side, h⟩
    exact ⟨(field, side), h, beq_self_eq_true field⟩

/-- Conditions that are gone do not count for the fields that they do not bound. -/
theorem constrains_remaining (hgone : Aside conditions fields gone) (hfield : field ∈ fields) :
    constrains (remaining conditions gone) field = constrains conditions field := by
  rw [Bool.eq_iff_iff, constrains_iff, constrains_iff]
  constructor
  · rintro ⟨c, hc, hbounding⟩
    obtain ⟨i, hget, -⟩ := mem_remaining.mp hc
    exact ⟨c, List.mem_of_getElem? hget, hbounding⟩
  · rintro ⟨c, hc, side, hbounding⟩
    obtain ⟨i, hget⟩ := List.mem_iff_getElem?.mp hc
    refine ⟨c, mem_remaining.mpr ⟨i, hget, ?_⟩, side, hbounding⟩
    intro hi
    exact hgone i hi c hget field side hbounding hfield

theorem Aside.not_bounding (h : Aside conditions fields gone) (hfield : field ∈ fields)
    (side : BoundSide) :
    ∀ i ∈ gone, ∀ c, conditions[i]? = some c → c.bounding? ≠ some (field, side) :=
  fun i hi c hc hbounding => h i hi c hc field side hbounding hfield

theorem Aside.mono {fields' : List String} (h : Aside conditions fields gone)
    (hsub : ∀ f ∈ fields', f ∈ fields) : Aside conditions fields' gone :=
  fun i hi c hc f side hbounding hf => h i hi c hc f side hbounding (hsub f hf)

/-- The place of a condition that bounds another field may be gone, too. -/
theorem Aside.append (h : Aside conditions fields gone) (hfield : field ∉ fields)
    (side : BoundSide) :
    Aside conditions fields (gone ++ (place? conditions field side).toList) := by
  intro i hi c hc f side' hbounding
  rcases List.mem_append.mp hi with hi | hi
  · exact h i hi c hc f side' hbounding
  · obtain ⟨c', hc', hbounding'⟩ := place?_eq_some (Option.mem_toList.mp hi)
    obtain rfl := Option.some.inj (hc.symm.trans hc')
    rw [(Prod.mk.inj (Option.some.inj (hbounding.symm.trans hbounding'))).1]
    exact hfield

/-- The end of the walk, at a field without an equality. -/
theorem endWalk_remaining (hgone : Aside conditions (field :: fields) gone)
    (hfield : field ∉ fields) :
    endWalk index field fields (remaining conditions gone)
      = if !ranged conditions field && !fields.isEmpty then
          .error (.missingLeadingCondition index field)
        else if fields.any (constrains conditions) then .error (.rangeNotLast index field)
        else .ok ((firstBound? conditions field .lower).toList
            ++ (firstBound? conditions field .upper).toList,
          remaining conditions (gone ++ ((place? conditions field .lower).toList
            ++ (place? conditions field .upper).toList))) := by
  have hlower := takeBound_remaining (hgone.not_bounding List.mem_cons_self .lower)
  -- the condition that bounds the field from below does not bound it from above
  have hgone' : ∀ i ∈ gone ++ (place? conditions field .lower).toList, ∀ c,
      conditions[i]? = some c → c.bounding? ≠ some (field, .upper) := by
    intro i hi c hc hbounding
    rcases List.mem_append.mp hi with hi | hi
    · exact hgone.not_bounding List.mem_cons_self .upper i hi c hc hbounding
    · obtain ⟨c', hc', hbounding'⟩ := place?_eq_some (Option.mem_toList.mp hi)
      obtain rfl := Option.some.inj (hc.symm.trans hc')
      exact nomatch hbounding.symm.trans hbounding'
  have hupper := takeBound_remaining hgone'
  have hothers : Aside conditions fields (gone ++ (place? conditions field .lower).toList
      ++ (place? conditions field .upper).toList) :=
    ((hgone.mono fun f hf => List.mem_cons_of_mem _ hf).append hfield .lower).append hfield .upper
  have hconstrains : fields.any (constrains (remaining conditions (gone
        ++ (place? conditions field .lower).toList ++ (place? conditions field .upper).toList)))
      = fields.any (constrains conditions) := by
    refine any_congr_of_mem ?_
    intro f hf
    exact constrains_remaining hothers hf
  have hranged : ((firstBound? conditions field .lower).isNone
      && (firstBound? conditions field .upper).isNone) = !ranged conditions field := by
    rw [ranged_eq, Bool.not_or, ← isSome_firstBound?, ← isSome_firstBound?, Option.not_isSome,
      Option.not_isSome]
  rw [endWalk, hlower]
  dsimp only
  rw [hupper]
  dsimp only
  rw [hconstrains, hranged, List.append_assoc]

/-- The walk goes by the given conditions, of which those that are gone could not have bounded
    a field of the walk. -/
theorem walk_remaining (index : String) (hnodup : fields.Nodup)
    (hgone : Aside conditions fields gone) :
    walk index fields (remaining conditions gone)
      = match fields.dropWhile (equated conditions) with
        | [] => .ok (bounds conditions fields,
            remaining conditions (gone ++ places conditions fields))
        | f :: later =>
          if !ranged conditions f && !later.isEmpty then .error (.missingLeadingCondition index f)
          else if later.any (constrains conditions) then .error (.rangeNotLast index f)
          else .ok (bounds conditions fields,
            remaining conditions (gone ++ places conditions fields)) := by
  induction fields generalizing gone with
  | nil =>
      have hplaces : gone ++ places conditions [] = gone := List.append_nil gone
      rw [walk, hplaces]
      rfl
  | cons field fields ih =>
      obtain ⟨hfield, hnodup⟩ := List.nodup_cons.mp hnodup
      have hexact := takeBound_remaining (hgone.not_bounding List.mem_cons_self .exact)
      have hsome := isSome_firstBound? conditions field .exact
      have hequated := equated_eq conditions field
      rw [walk_cons, hexact, bounds, places]
      cases hplace : place? conditions field .exact with
      | none =>
          rw [hplace, Option.isSome_none] at hsome hequated
          rw [Option.isSome_eq_false_iff, Option.isNone_iff_eq_none] at hsome
          have hnot : ¬ equated conditions field = true := ne_true_of_eq_false hequated
          rw [hsome, slots_cons_of_neg hnot, List.dropWhile_cons_of_neg hnot, filterMap_pair,
            filterMap_pair]
          exact endWalk_remaining hgone hfield
      | some i =>
          rw [hplace, Option.isSome_some] at hsome hequated
          obtain ⟨b, hb⟩ := Option.isSome_iff_exists.mp hsome
          have hothers : Aside conditions fields (gone ++ [i]) := by
            have happend := (hgone.mono fun f hf => List.mem_cons_of_mem _ hf).append hfield .exact
            rwa [hplace] at happend
          rw [hb, Option.toList_some, List.dropWhile_cons_of_pos hequated,
            slots_cons_of_pos hequated, List.filterMap_cons, List.filterMap_cons, hb, hplace]
          dsimp only
          rw [ih hnodup hothers,
            List.append_cons gone i (List.filterMap _ (slots conditions fields))]
          cases fields.dropWhile (equated conditions) with
          | nil => rfl
          | cons f later =>
              dsimp only
              split
              · rfl
              · split
                · rfl
                · rfl

-- ── The rule ────────────────────────────────────────────────────────────────

variable {schema : Schema} {table : String} {k : Nat}

/-- The field `k` cannot be bounded, and is not the last. -/
def Unbounded (conditions : List Condition) (fields : List String) (k : Nat) (f : String) : Prop :=
  fields[k]? = some f ∧ k + 1 < fields.length ∧ ranged conditions f = false

/-- The field `k` is bounded from below or above, and a later one can be bounded, too. -/
def BoundEarly (conditions : List Condition) (fields : List String) (k : Nat) (f : String) : Prop :=
  fields[k]? = some f ∧ ranged conditions f = true ∧
    ∃ g ∈ fields.drop (k + 1), constrains conditions g = true

theorem Unbounded.eq {f g : String} (h : Unbounded conditions fields k f)
    (h' : Unbounded conditions fields k g) : f = g :=
  Option.some.inj (h.1.symm.trans h'.1)

theorem BoundEarly.eq {f g : String} (h : BoundEarly conditions fields k f)
    (h' : BoundEarly conditions fields k g) : f = g :=
  Option.some.inj (h.1.symm.trans h'.1)

/-- Where a field is reported as unbounded, none is as bound too early. -/
theorem Unbounded.not_boundEarly {f : String} (h : Unbounded conditions fields k f) (g : String) :
    ¬ BoundEarly conditions fields k g := by
  intro h'
  obtain rfl := Option.some.inj (h.1.symm.trans h'.1)
  exact absurd h'.2.1 (Bool.eq_false_iff.mp h.2.2)

/-- The range is what a backend serves: an equality for each of the first `k` fields, in their
    order, and then for field `k` no bounds, one from below, one from above, or both. -/
structure LegalRange (fields : List String) (k : Nat) (range : IndexRange) : Prop where
  equalities : (range.take k).map (fun b => (b.field, b.op))
    = (fields.take k).map fun f => (f, .eq)
  ends : ∃ lower upper : Option Bound, range.drop k = lower.toList ++ upper.toList ∧
    (∀ b ∈ lower, fields[k]? = some b.field ∧ isLower b.op.toOperator = true) ∧
    ∀ b ∈ upper, fields[k]? = some b.field ∧ isUpper b.op.toOperator = true

/-- The condition at the place is the comparison that the bound makes, and no condition before
    it can bound the same field from the same side. -/
def MadeAt (conditions : List Condition) (i : Nat) (b : Bound) : Prop :=
  (∃ t, conditions[i]? = some (.compare ⟨.column t b.field, b.op.toOperator, b.value⟩)) ∧
    ∀ j < i, conditions[j]?.bind Condition.bounding? ≠ conditions[i]?.bind Condition.bounding?

/-- The number of leading fields that have an equality. -/
def leading (conditions : List Condition) (fields : List String) : Nat :=
  (fields.takeWhile (equated conditions)).length

/-- The leading fields are those in front that are equated. -/
theorem drop_leading (conditions : List Condition) (fields : List String) :
    fields.drop (leading conditions fields) = fields.dropWhile (equated conditions) := by
  conv_lhs =>
    arg 2
    rw [← List.takeWhile_append_dropWhile (p := equated conditions) (l := fields)]
  rw [leading, List.drop_left]

theorem take_leading (conditions : List Condition) (fields : List String) :
    fields.take (leading conditions fields) = fields.takeWhile (equated conditions) := by
  conv_lhs =>
    arg 2
    rw [← List.takeWhile_append_dropWhile (p := equated conditions) (l := fields)]
  rw [leading, List.take_left]

/-- An index that is there is read as the walk over its fields says. -/
theorem throughIndex_eq_map (hindex : schema.indexFields? table index = some fields)
    (conditions : List Condition) :
    throughIndex schema table index conditions
      = (walk index fields conditions).map fun x =>
          .index index fields x.1 (Condition.toFilter? x.2) := by
  rw [throughIndex, hindex]
  dsimp only
  cases walk index fields conditions with
  | error e => rfl
  | ok x => rfl

/-- The three ways in which a walk can end. -/
theorem walk_cases (index : String) (hnodup : fields.Nodup)
    (hk : leading conditions fields = k) :
    (∃ f, Unbounded conditions fields k f ∧
        walk index fields conditions = .error (.missingLeadingCondition index f)) ∨
      (∃ f, BoundEarly conditions fields k f ∧
        walk index fields conditions = .error (.rangeNotLast index f)) ∨
      (∀ f, ¬ Unbounded conditions fields k f) ∧ (∀ f, ¬ BoundEarly conditions fields k f) ∧
        walk index fields conditions
          = .ok (bounds conditions fields, remaining conditions (places conditions fields)) := by
  have hnone : Aside conditions fields [] := fun i hi => nomatch hi
  have hwalk := walk_remaining index hnodup hnone
  have hhead : fields[k]? = (fields.dropWhile (equated conditions)).head? := by
    rw [← drop_leading, hk, List.head?_drop]
  have htail : fields.drop (k + 1) = (fields.dropWhile (equated conditions)).tail := by
    rw [← drop_leading, hk, List.tail_drop]
  have hlast : k + 1 < fields.length ↔ (fields.drop (k + 1)).isEmpty = false := by
    rw [List.isEmpty_eq_false_iff, ne_eq, List.drop_eq_nil_iff, Nat.not_le]
  simp only [Unbounded, BoundEarly, hhead, hlast, htail]
  rw [remaining_nil, List.nil_append] at hwalk
  cases hrest : fields.dropWhile (equated conditions) with
  | nil =>
      rw [hrest] at hwalk
      exact .inr (.inr ⟨fun f h => (nomatch h.1), fun f h => (nomatch h.1), hwalk⟩)
  | cons f later =>
      rw [hrest] at hwalk
      dsimp only at hwalk ⊢
      simp only [List.head?_cons, Option.some.injEq, List.tail_cons]
      split at hwalk
      · rename_i hnone
        rw [Bool.and_eq_true, Bool.not_eq_true', Bool.not_eq_true'] at hnone
        exact .inl ⟨f, ⟨rfl, hnone.2, hnone.1⟩, hwalk⟩
      · rename_i hsome
        split at hwalk
        · rename_i hlater
          obtain ⟨g, hg, hconstrains⟩ := List.any_eq_true.mp hlater
          refine .inr (.inl ⟨f, ⟨rfl, ?_, g, hg, hconstrains⟩, hwalk⟩)
          -- a later field is left, so what bounds this one is a range
          by_contra hnot
          refine hsome ?_
          rw [Bool.and_eq_true, Bool.not_eq_true', Bool.not_eq_true', List.isEmpty_eq_false_iff]
          exact ⟨Bool.eq_false_iff.mpr hnot, List.ne_nil_of_mem hg⟩
        · rename_i hlater
          refine .inr (.inr ⟨?_, ?_, hwalk⟩)
          · rintro _ ⟨rfl, hnonempty, hranged⟩
            exact hsome (by rw [hranged, hnonempty]; rfl)
          · rintro _ ⟨rfl, -, hconstrains⟩
            exact hlater (List.any_eq_true.mpr hconstrains)

/-- A bound that is looked for is made by the first condition that can. -/
theorem forall₂_madeAt (conditions : List Condition) (wanted : List (String × BoundSide)) :
    List.Forall₂ (MadeAt conditions) (wanted.filterMap fun s => place? conditions s.1 s.2)
      (wanted.filterMap fun s => firstBound? conditions s.1 s.2) := by
  induction wanted with
  | nil => exact .nil
  | cons s wanted ih =>
      rw [List.filterMap_cons, List.filterMap_cons, firstBound?]
      cases hi : place? conditions s.1 s.2 with
      | none => exact ih
      | some i =>
          obtain ⟨c, hc, hbounding⟩ := place?_eq_some hi
          obtain ⟨t, op, v, rfl, -, b, hb, -, -⟩ := exists_bound?_of_bounding? hbounding
          rw [Option.bind_some, hc, Option.bind_some, hb]
          refine .cons ⟨⟨t, ?_⟩, ?_⟩ ih
          · obtain ⟨bop, hop, rfl⟩ := Option.map_eq_some_iff.mp hb
            rw [toOperator_of_ofOperator? hop]
            exact hc
          · intro j hj heq
            obtain ⟨hlt, -, hfirst⟩ := List.findIdx?_eq_some_iff_getElem.mp hi
            rw [List.getElem?_eq_getElem (Nat.lt_trans hj hlt), hc, Option.bind_some,
              Option.bind_some, hbounding] at heq
            exact hfirst j hj (beq_iff_eq.mpr heq)

/-- No slot occurs twice. -/
theorem nodup_slots (conditions : List Condition) (hnodup : fields.Nodup) :
    (slots conditions fields).Nodup := by
  rw [slots, List.nodup_append']
  refine ⟨?_, ?_, ?_⟩
  · refine (hnodup.sublist (List.takeWhile_sublist _)).map ?_
    intro f g h
    exact congrArg Prod.fst h
  · cases (fields.dropWhile (equated conditions)).head? with
    | none => exact List.nodup_nil
    | some f => simp
  · intro s hexact hend
    obtain ⟨f, -, rfl⟩ := List.mem_map.mp hexact
    obtain ⟨g, -, hg⟩ := List.mem_flatMap.mp hend
    simp at hg

/-- Different bounds are made by different conditions. -/
theorem nodup_places (conditions : List Condition) (hnodup : fields.Nodup) :
    (places conditions fields).Nodup := by
  refine List.Nodup.filterMap ?_ (nodup_slots conditions hnodup)
  intro s s' i hi hi'
  obtain ⟨c, hc, hbounding⟩ := place?_eq_some hi
  obtain ⟨c', hc', hbounding'⟩ := place?_eq_some hi'
  obtain rfl := Option.some.inj (hc.symm.trans hc')
  exact Option.some.inj (hbounding.symm.trans hbounding')

/-- Fields that have an equality are bounded by it. -/
theorem map_firstBound?_exact {leads : List String}
    (h : ∀ f ∈ leads, equated conditions f = true) :
    (leads.filterMap (firstBound? conditions · .exact)).map (fun b => (b.field, b.op))
      = leads.map fun f => (f, .eq) := by
  induction leads with
  | nil => rfl
  | cons f leads ih =>
      have hsome := isSome_firstBound? conditions f .exact
      rw [← equated_eq, h f List.mem_cons_self] at hsome
      obtain ⟨b, hb⟩ := Option.isSome_iff_exists.mp hsome
      obtain ⟨hfield, haccepts⟩ := firstBound?_eq_some hb
      have hop : b.op = .eq := by
        cases hop : b.op <;> rw [hop] at haccepts <;> first | rfl | exact nomatch haccepts
      rw [List.filterMap_cons, hb]
      dsimp only
      rw [List.map_cons, List.map_cons, ih fun g hg => h g (List.mem_cons_of_mem _ hg), hfield,
        hop]

/-- The bounds that the walk finds are a legal range. -/
theorem legalRange_bounds (hk : leading conditions fields = k) :
    LegalRange fields k (bounds conditions fields) := by
  have hleads : ∀ f ∈ fields.takeWhile (equated conditions), equated conditions f = true :=
    fun f hf => List.all_eq_true.mp List.all_takeWhile f hf
  have hexact := map_firstBound?_exact hleads
  have hlength := congrArg List.length hexact
  rw [List.length_map, List.length_map, ← leading, hk] at hlength
  have hbounds : bounds conditions fields
      = (fields.takeWhile (equated conditions)).filterMap (firstBound? conditions · .exact)
        ++ (fields[k]?.toList.flatMap fun f =>
          [(f, BoundSide.lower), (f, BoundSide.upper)]).filterMap
            fun s => firstBound? conditions s.1 s.2 := by
    rw [bounds, slots, List.filterMap_append, List.filterMap_map, ← drop_leading, hk,
      List.head?_drop]
    rfl
  refine ⟨?_, ?_⟩
  · rw [hbounds, List.take_left' hlength, hexact, ← hk, take_leading]
  · rw [hbounds, List.drop_left' hlength]
    cases fields[k]? with
    | none => exact ⟨none, none, rfl, fun b hb => (nomatch hb), fun b hb => (nomatch hb)⟩
    | some f =>
        refine ⟨firstBound? conditions f .lower, firstBound? conditions f .upper,
          filterMap_pair _ _ _, ?_, ?_⟩
        · intro b hb
          obtain ⟨rfl, haccepts⟩ := firstBound?_eq_some hb
          exact ⟨rfl, haccepts⟩
        · intro b hb
          obtain ⟨rfl, haccepts⟩ := firstBound?_eq_some hb
          exact ⟨rfl, haccepts⟩

/-- **How an index is read.** Of an index with different fields, `k`, the leading ones, have an
    equality. It is refused just when field `k` cannot be bounded and is not the last, or is bounded
    as a range before a field that can be bounded, too. Otherwise it is read, in a legal range:
    the bounds are made by the first conditions that can, and all others are the residual
    filter, in their order. What is not a comparison of a column, or is a `!=`, is never a bound. -/
theorem throughIndex_rule (hindex : schema.indexFields? table index = some fields)
    (hnodup : fields.Nodup) (hk : leading conditions fields = k) :
    (∀ f, throughIndex schema table index conditions = .error (.missingLeadingCondition index f) ↔
        Unbounded conditions fields k f) ∧
      (∀ f, throughIndex schema table index conditions = .error (.rangeNotLast index f) ↔
        BoundEarly conditions fields k f) ∧
      ((∀ f, ¬ Unbounded conditions fields k f) → (∀ f, ¬ BoundEarly conditions fields k f) →
        throughIndex schema table index conditions
          = .ok (.index index fields (bounds conditions fields)
              (Condition.toFilter? (remaining conditions (places conditions fields))))) ∧
      LegalRange fields k (bounds conditions fields) ∧
      List.Forall₂ (MadeAt conditions) (places conditions fields) (bounds conditions fields) ∧
      (places conditions fields).Nodup := by
  have hthrough := throughIndex_eq_map hindex conditions
  have hshape : LegalRange fields k (bounds conditions fields) ∧
      List.Forall₂ (MadeAt conditions) (places conditions fields) (bounds conditions fields) ∧
      (places conditions fields).Nodup :=
    ⟨legalRange_bounds hk, forall₂_madeAt conditions (slots conditions fields),
      nodup_places conditions hnodup⟩
  rcases walk_cases index hnodup hk with ⟨f, hf, hwalk⟩ | ⟨f, hf, hwalk⟩ | ⟨hbound, hlast, hwalk⟩
  · rw [hwalk] at hthrough
    refine ⟨?_, ?_, ?_, hshape⟩
    · intro g
      rw [hthrough]
      constructor
      · rintro ⟨⟩
        exact hf
      · intro hg
        rw [hf.eq hg]
        rfl
    · intro g
      rw [hthrough]
      constructor
      · rintro ⟨⟩
      · exact fun hg => absurd hg (hf.not_boundEarly g)
    · intro hbound
      exact absurd hf (hbound f)
  · rw [hwalk] at hthrough
    refine ⟨?_, ?_, ?_, hshape⟩
    · intro g
      rw [hthrough]
      constructor
      · rintro ⟨⟩
      · exact fun hg => absurd hf (hg.not_boundEarly f)
    · intro g
      rw [hthrough]
      constructor
      · rintro ⟨⟩
        exact hf
      · intro hg
        rw [hf.eq hg]
        rfl
    · intro _ hlast
      exact absurd hf (hlast f)
  · rw [hwalk] at hthrough
    refine ⟨?_, ?_, fun _ _ => hthrough, hshape⟩
    · intro g
      rw [hthrough]
      constructor
      · rintro ⟨⟩
      · exact fun hg => absurd hg (hbound g)
    · intro g
      rw [hthrough]
      constructor
      · rintro ⟨⟩
      · exact fun hg => absurd hg (hlast g)

/-- An index on city, age and name. -/
def sampleSchema : Schema :=
  Schema.empty.withIndex "users" "by_city" ["city", "age", "name"]

/-- A comparison of a column. -/
def sampleCompare (field : String) (op : Operator) (value : Value) : Condition :=
  .compare ⟨.column none field, op, value⟩

/-- Comparisons of ages around an equality on the city, a disjunction and a `!=`. -/
def sampleConditions : List Condition :=
  [sampleCompare "age" .gt (.number (.ofNat 20)), sampleCompare "city" .notEq (.text "Oslo"),
    .or (sampleCompare "name" .eq (.text "Ann")) (sampleCompare "name" .eq (.text "Bob")),
    sampleCompare "city" .eq (.text "Rome"), sampleCompare "age" .gtEq (.number (.ofNat 30)),
    sampleCompare "age" .ltEq (.number (.ofNat 40))]

/-- Two ages bound the read and the third is left; without any, or with a name, the index is
    refused. -/
theorem throughIndex_rule_sample :
    throughIndex sampleSchema "users" "by_city" sampleConditions
        = .ok (.index "by_city" ["city", "age", "name"]
            [⟨"city", .eq, .text "Rome"⟩, ⟨"age", .gt, .number (.ofNat 20)⟩,
              ⟨"age", .lte, .number (.ofNat 40)⟩]
            (Condition.toFilter? [sampleCompare "city" .notEq (.text "Oslo"),
              .or (sampleCompare "name" .eq (.text "Ann")) (sampleCompare "name" .eq (.text "Bob")),
              sampleCompare "age" .gtEq (.number (.ofNat 30))])) ∧
      throughIndex sampleSchema "users" "by_city" [sampleCompare "city" .eq (.text "Rome")]
        = .error (.missingLeadingCondition "by_city" "age") ∧
      throughIndex sampleSchema "users" "by_city"
          (sampleConditions ++ [sampleCompare "name" .lt (.text "C")])
        = .error (.rangeNotLast "by_city" "age") := by
  have hindex : sampleSchema.indexFields? "users" "by_city" = some ["city", "age", "name"] := by
    decide
  have hnodup : ["city", "age", "name"].Nodup := by decide
  refine ⟨?_, ?_, ?_⟩
  · refine (throughIndex_rule hindex hnodup (k := 1) (by decide)).2.2.1 ?_ ?_
    · rintro f ⟨hf, -, hranged⟩
      obtain rfl : "age" = f := Option.some.inj hf
      exact absurd hranged (by decide)
    · rintro f ⟨-, -, g, hg, hconstrains⟩
      obtain rfl : g = "name" := List.mem_singleton.mp hg
      exact absurd hconstrains (by decide)
  · refine ((throughIndex_rule hindex hnodup (k := 1) (by decide)).1 "age").mpr ?_
    exact ⟨rfl, by decide, by decide⟩
  · refine ((throughIndex_rule hindex hnodup (k := 1) (by decide)).2.1 "age").mpr ?_
    exact ⟨rfl, by decide, "name", List.mem_singleton_self _, by decide⟩

end AccessPath

end DocQuery
