import DocQuery.Value.Order

/-!
# Laws of the comparisons of values

Equality of values is symmetric and transitive, and reflexive but for NaN. The sorting
order answers the opposite question with the opposite answer on any two values. It is a
total preorder only where the values are comparable: on the values that fit a column of one
type, null included, it is transitive and ties exactly the equal ones.
-/

namespace DocQuery

-- ── Numbers ─────────────────────────────────────────────────────────────────

namespace Number

/-- Numbers compare by rank. -/
theorem compare?_of_not_isNaN {x y : Number} (hx : x.isNaN = false) (hy : y.isNaN = false) :
    x.compare? y = some (compare x.rank y.rank) := by
  rw [compare?, hx, hy]
  rfl

/-- Equal numbers are those of one rank. -/
theorem equal_iff {x y : Number} :
    x.equal y = true ↔ x.isNaN = false ∧ y.isNaN = false ∧ x.rank = y.rank := by
  rw [equal, compare?]
  cases hx : x.isNaN <;> cases hy : y.isNaN <;> simp

theorem equal_symm {x y : Number} (h : x.equal y = true) : y.equal x = true := by
  obtain ⟨hx, hy, hrank⟩ := equal_iff.mp h
  exact equal_iff.mpr ⟨hy, hx, hrank.symm⟩

theorem equal_trans {x y z : Number} (hxy : x.equal y = true) (hyz : y.equal z = true) :
    x.equal z = true := by
  obtain ⟨hx, _, h₁⟩ := equal_iff.mp hxy
  obtain ⟨_, hz, h₂⟩ := equal_iff.mp hyz
  exact equal_iff.mpr ⟨hx, hz, h₁.trans h₂⟩

end Number

namespace Value

-- ── Equality ────────────────────────────────────────────────────────────────

theorem isNull_iff {v : Value} : v.isNull = true ↔ v = .null := by
  cases v <;> simp [isNull]

/-- Values are equal if they are the same, or numbers of one rank. -/
theorem equal_iff {v w : Value} :
    v.equal w = true ↔
      (v.number? = none ∧ v = w) ∨ ∃ x y, v = .number x ∧ w = .number y ∧ x.equal y = true := by
  cases v <;> cases w <;> simp [equal, number?]

theorem equal_symm {v w : Value} (h : v.equal w = true) : w.equal v = true := by
  rcases equal_iff.mp h with ⟨hn, rfl⟩ | ⟨x, y, rfl, rfl, hxy⟩
  · exact h
  · exact Number.equal_symm hxy

theorem equal_comm (v w : Value) : v.equal w = w.equal v :=
  Bool.eq_iff_iff.mpr ⟨equal_symm, equal_symm⟩

theorem equal_trans {u v w : Value} (huv : u.equal v = true) (hvw : v.equal w = true) :
    u.equal w = true := by
  rcases equal_iff.mp huv with ⟨_, rfl⟩ | ⟨x, y, rfl, rfl, hxy⟩
  · exact hvw
  · rcases equal_iff.mp hvw with ⟨hn, _⟩ | ⟨y', z, hy, rfl, hyz⟩
    · exact nomatch hn
    · cases hy
      exact Number.equal_trans hxy hyz

/-- Every value but NaN is equal to itself. -/
theorem equal_refl {v : Value} (h : ∀ x, v = .number x → x.isNaN = false) :
    v.equal v = true := by
  cases v with
  | number x => exact Number.equal_iff.mpr ⟨h x rfl, h x rfl, rfl⟩
  | null => rfl
  | boolean b => exact beq_self_eq_true b
  | text s => exact beq_self_eq_true s

/-- A value equal to null is null. -/
theorem isNull_eq_of_equal {v w : Value} (h : v.equal w = true) : v.isNull = w.isNull := by
  rcases equal_iff.mp h with ⟨_, rfl⟩ | ⟨x, y, rfl, rfl, _⟩ <;> rfl

-- ── The sorting order, asked for the other way round ────────────────────────

/-- The collation is the order of the texts in lower case, refined by the opposite order of
    the texts themselves. -/
instance collateText_transCmp : Std.TransCmp collateText :=
  inferInstanceAs (Std.TransCmp (compareLex (compareOn Text.lower) fun s t => compare t s))

/-- Texts are in the same place only if they are the same. -/
theorem collateText_eq_iff {s t : String} : collateText s t = .eq ↔ s = t := by
  constructor
  · intro h
    rw [collateText, Ordering.then_eq_eq] at h
    exact (Std.LawfulEqOrd.eq_of_compare h.2).symm
  · rintro rfl
    exact Std.ReflCmp.compare_self

/-- To swap two values swaps their order. -/
theorem collateValue_swap (v w : Value) : collateValue w v = (collateValue v w).swap := by
  cases v <;> cases w
  case number.number x y =>
      show (y.compare? x).getD .eq = ((x.compare? y).getD .eq).swap
      rw [Number.compare?, Number.compare?, Bool.or_comm]
      cases x.isNaN || y.isNaN with
      | true => rfl
      | false => exact Std.OrientedOrd.eq_swap
  case text.text s t => exact collateText_transCmp.eq_swap
  all_goals exact Std.OrientedOrd.eq_swap

/-- The two ways of asking for the order of two values, NaN and mixed types included, never
    contradict each other. -/
theorem collate_swap (v w : Value) : collate w v = (collate v w).swap := by
  rw [collate, collate]
  cases v.isNull <;> cases w.isNull
  · exact collateValue_swap v w
  all_goals rfl

-- ── Columns of one type ─────────────────────────────────────────────────────

/-- The types of values that are not null. -/
inductive Kind where
  | boolean
  | number
  | text
  deriving DecidableEq

/-- The value can stand in a column of the kind: it is null, or a value of the kind that
    has a place in the order. -/
def Fits (kind : Kind) : Value → Prop
  | .null => True
  | .boolean _ => kind = .boolean
  | .number x => kind = .number ∧ x.isNaN = false
  | .text _ => kind = .text

instance (kind : Kind) : DecidablePred (Fits kind)
  | .null => .isTrue trivial
  | .boolean _ => inferInstanceAs (Decidable (kind = .boolean))
  | .number x => inferInstanceAs (Decidable (kind = .number ∧ x.isNaN = false))
  | .text _ => inferInstanceAs (Decidable (kind = .text))

/-- A value of this kind that is not null is a boolean. -/
theorem Fits.eq_boolean {v : Value} (h : v.Fits .boolean) (hn : v.isNull = false) :
    ∃ b, v = .boolean b := by
  cases v with
  | boolean b => exact ⟨b, rfl⟩
  | null => exact nomatch hn
  | number x => exact nomatch h.1
  | text s => exact nomatch h

/-- A value of this kind that is not null is a number other than NaN. -/
theorem Fits.eq_number {v : Value} (h : v.Fits .number) (hn : v.isNull = false) :
    ∃ x, v = .number x ∧ x.isNaN = false := by
  cases v with
  | number x => exact ⟨x, rfl, h.2⟩
  | null => exact nomatch hn
  | boolean b => exact nomatch h
  | text s => exact nomatch h

/-- A value of this kind that is not null is a text. -/
theorem Fits.eq_text {v : Value} (h : v.Fits .text) (hn : v.isNull = false) :
    ∃ s, v = .text s := by
  cases v with
  | text s => exact ⟨s, rfl⟩
  | null => exact nomatch hn
  | boolean b => exact nomatch h
  | number x => exact nomatch h.1

/-- Within a kind, values are in the same place only if they are equal. -/
theorem collateValue_eq_iff {kind : Kind} {v w : Value} (hv : v.Fits kind) (hw : w.Fits kind)
    (hvn : v.isNull = false) (hwn : w.isNull = false) :
    collateValue v w = .eq ↔ v.equal w = true := by
  cases kind with
  | boolean =>
      obtain ⟨a, rfl⟩ := hv.eq_boolean hvn
      obtain ⟨b, rfl⟩ := hw.eq_boolean hwn
      cases a <;> cases b <;> decide
  | number =>
      obtain ⟨x, rfl, hx⟩ := hv.eq_number hvn
      obtain ⟨y, rfl, hy⟩ := hw.eq_number hwn
      show (x.compare? y).getD .eq = .eq ↔ x.equal y = true
      rw [Number.compare?_of_not_isNaN hx hy, Number.equal_iff, Option.getD_some,
        Std.LawfulEqOrd.compare_eq_iff_eq]
      exact ⟨fun h => ⟨hx, hy, h⟩, fun h => h.2.2⟩
  | text =>
      obtain ⟨s, rfl⟩ := hv.eq_text hvn
      obtain ⟨t, rfl⟩ := hw.eq_text hwn
      show collateText s t = .eq ↔ (s == t) = true
      rw [collateText_eq_iff, beq_iff_eq]

/-- In a column of one kind the order ties exactly the equal values. -/
theorem collate_eq_iff {kind : Kind} {v w : Value} (hv : v.Fits kind) (hw : w.Fits kind) :
    collate v w = .eq ↔ v.equal w = true := by
  rw [collate]
  cases hvn : v.isNull <;> cases hwn : w.isNull
  · exact collateValue_eq_iff hv hw hvn hwn
  · refine ⟨fun h => (nomatch h), fun h => ?_⟩
    rw [isNull_eq_of_equal h, hwn] at hvn
    exact nomatch hvn
  · refine ⟨fun h => (nomatch h), fun h => ?_⟩
    rw [isNull_eq_of_equal h, hwn] at hvn
    exact nomatch hvn
  · rw [isNull_iff.mp hvn, isNull_iff.mp hwn]
    exact ⟨fun _ => rfl, fun _ => rfl⟩

/-- Within a kind the order is transitive. It is not across kinds. -/
theorem collateValue_isLE_trans {kind : Kind} {u v w : Value} (hu : u.Fits kind)
    (hv : v.Fits kind) (hw : w.Fits kind) (hun : u.isNull = false) (hvn : v.isNull = false)
    (hwn : w.isNull = false) (huv : (collateValue u v).isLE = true)
    (hvw : (collateValue v w).isLE = true) : (collateValue u w).isLE = true := by
  cases kind with
  | boolean =>
      obtain ⟨a, rfl⟩ := hu.eq_boolean hun
      obtain ⟨b, rfl⟩ := hv.eq_boolean hvn
      obtain ⟨c, rfl⟩ := hw.eq_boolean hwn
      exact Std.TransOrd.isLE_trans huv hvw
  | number =>
      obtain ⟨x, rfl, hx⟩ := hu.eq_number hun
      obtain ⟨y, rfl, hy⟩ := hv.eq_number hvn
      obtain ⟨z, rfl, hz⟩ := hw.eq_number hwn
      simp only [collateValue, Number.compare?_of_not_isNaN hx hy,
        Number.compare?_of_not_isNaN hy hz, Number.compare?_of_not_isNaN hx hz,
        Option.getD_some] at huv hvw ⊢
      exact Std.TransOrd.isLE_trans huv hvw
  | text =>
      obtain ⟨s, rfl⟩ := hu.eq_text hun
      obtain ⟨t, rfl⟩ := hv.eq_text hvn
      obtain ⟨r, rfl⟩ := hw.eq_text hwn
      exact collateText_transCmp.isLE_trans huv hvw

/-- What comes before a value that is not null is not null. -/
theorem isNull_of_collate_isLE {v w : Value} (h : (collate v w).isLE = true)
    (hw : w.isNull = false) : v.isNull = false := by
  cases hv : v.isNull with
  | false => rfl
  | true =>
      rw [collate, hv, hw] at h
      exact nomatch h

/-- In a column of one kind the order is transitive. -/
theorem collate_isLE_trans {kind : Kind} {u v w : Value} (hu : u.Fits kind)
    (hv : v.Fits kind) (hw : w.Fits kind) (huv : (collate u v).isLE = true)
    (hvw : (collate v w).isLE = true) : (collate u w).isLE = true := by
  cases hwn : w.isNull with
  | true => cases hun : u.isNull <;> simp [collate, hun, hwn]
  | false =>
      have hvn : v.isNull = false := isNull_of_collate_isLE hvw hwn
      have hun : u.isNull = false := isNull_of_collate_isLE huv hvn
      simp only [collate, hun, hvn, hwn] at huv hvw ⊢
      exact collateValue_isLE_trans hu hv hw hun hvn hwn huv hvw

end Value

end DocQuery
