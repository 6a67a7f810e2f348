import DocQuery.Number.Rounding
import Mathlib.Tactic.Ring

/-!
# Rounding finds the number that is near

A magnitude is a scale and a significand, `e * 2 ^ 52 + f`, and stands for `f * 2 ^ e` units.
Main statements, for exact fractions `num / den` of units:

* `magnitudeOf_near` — a fraction within one part in `2 * 10 ^ 16` of a number rounds to it;
* `magnitudeOf_congr` — the magnitude depends on the value of the fraction alone;
* `magnitudeOf_units` — a number is its own rounding;
* `ofNat_lt_ofNat` — the natural numbers below `2 ^ 53` are kept apart and in order.
-/

namespace DocQuery.Number

-- ── Scales and significands ─────────────────────────────────────────────────

/-- The scale and the significand of a magnitude: the leading bit of the significand is set
    unless the scale is least. -/
structure Canonical (e f : Nat) : Prop where
  lt : f < 2 ^ 53
  leading : e = 0 ∨ 2 ^ 52 ≤ f

/-- Scale and significand of a number are in normal form. -/
theorem canonical_scale (x : Number) : Canonical x.scale x.significand := by
  constructor
  · simp only [significand, scale, leadingBit]
    omega
  · simp only [significand, scale, leadingBit]
    omega

/-- Scale and significand make up the magnitude. -/
theorem magnitude_eq (x : Number) : x.magnitude = x.scale * 2 ^ 52 + x.significand := by
  simp only [significand, scale, leadingBit]
  omega

theorem units_eq (x : Number) : x.units = x.significand * 2 ^ x.scale := rfl

theorem unitsPerOne_eq : unitsPerOne = 2 ^ 1074 :=
  Nat.pow_eq

theorem unitsPerOne_pos : 0 < unitsPerOne := by
  rw [unitsPerOne_eq]
  exact Nat.two_pow_pos 1074

/-- The scale of a fraction is told by the two powers of two around it. -/
theorem scaleOf_eq {num den e : Nat} (hden : 0 < den) (hlt : num < den * 2 ^ (e + 53))
    (hle : e = 0 ∨ den * 2 ^ (e + 52) ≤ num) : scaleOf num den = e := by
  have hup : num / den < 2 ^ (e + 53) := by
    rw [Nat.div_lt_iff_lt_mul hden, Nat.mul_comm]
    exact hlt
  rw [scaleOf]
  rcases hle with rfl | hle
  · by_cases h0 : num / den = 0
    · rw [h0]
      rfl
    · have := (Nat.log2_lt h0).mpr hup
      omega
  · have hlow : 2 ^ (e + 52) ≤ num / den := by
      rw [Nat.le_div_iff_mul_le hden, Nat.mul_comm]
      exact hle
    have h0 : num / den ≠ 0 := by
      have := Nat.two_pow_pos (e + 52)
      omega
    have := (Nat.log2_eq_iff h0).mpr ⟨hlow, hup⟩
    omega

-- ── Rounding to an integer ──────────────────────────────────────────────────

/-- The nearest integer is the one less than a half away. -/
theorem roundDiv_eq {num den n : Nat} (hlow : 2 * (n * den) < 2 * num + den)
    (hup : 2 * num < 2 * (n * den) + den) : roundDiv num den = n := by
  have hden : 0 < den := by omega
  have hdm : num / den * den + num % den = num := by
    rw [Nat.mul_comm]
    exact Nat.div_add_mod num den
  have hr := Nat.mod_lt num hden
  -- `n` is the quotient or the integer after it, as the remainder says
  have hcase : n = num / den ∧ 2 * (num % den) < den ∨
      n = num / den + 1 ∧ den < 2 * (num % den) := by
    rcases Nat.lt_trichotomy n (num / den) with hn | hn | hn
    · have := Nat.mul_le_mul_right den (Nat.succ_le_of_lt hn)
      rw [Nat.succ_mul] at this
      omega
    · subst hn
      exact Or.inl ⟨rfl, by omega⟩
    · rcases Nat.lt_or_ge (num / den + 1) n with hn' | hn'
      · have := Nat.mul_le_mul_right den (Nat.succ_le_of_lt hn')
        rw [Nat.succ_mul, Nat.succ_mul] at this
        omega
      · have heq : n = num / den + 1 := by omega
        subst heq
        rw [Nat.add_mul, Nat.one_mul] at hlow hup
        exact Or.inr ⟨rfl, by omega⟩
  rcases hcase with ⟨rfl, h⟩ | ⟨rfl, h⟩
  · simp [roundDiv, h]
  · have hnot : ¬ 2 * (num % den) < den := by omega
    simp [roundDiv, h, hnot]

/-- Rounding sees the quotient only. -/
theorem roundDiv_mul_right (num den c : Nat) (hc : 0 < c) :
    roundDiv (num * c) (den * c) = roundDiv num den := by
  have hlt : 2 * (num % den * c) < den * c ↔ 2 * (num % den) < den := by
    rw [← Nat.mul_assoc]
    exact Nat.mul_lt_mul_right hc
  have hgt : den * c < 2 * (num % den * c) ↔ den < 2 * (num % den) := by
    rw [← Nat.mul_assoc]
    exact Nat.mul_lt_mul_right hc
  simp only [roundDiv, Nat.mul_div_mul_right _ _ hc, Nat.mul_mod_mul_right, hlt, hgt]

-- ── Rounding to a magnitude ─────────────────────────────────────────────────

/-- Close to `n` units: within one part in `2 * 10 ^ 16`. -/
structure Near (num den n : Nat) : Prop where
  lower : (2 * 10 ^ 16 - 1) * (n * den) ≤ 2 * 10 ^ 16 * num
  upper : 2 * 10 ^ 16 * num ≤ (2 * 10 ^ 16 + 1) * (n * den)

theorem near_self (n : Nat) : Near n 1 n := by
  constructor <;> omega

/-- The rounded significand of a fraction whose scale is known. -/
theorem magnitudeOf_of_scale {num den e n : Nat} (hs : scaleOf num den = e)
    (hlow : 2 * (n * (den * 2 ^ e)) < 2 * num + den * 2 ^ e)
    (hup : 2 * num < 2 * (n * (den * 2 ^ e)) + den * 2 ^ e) :
    magnitudeOf num den = e * 2 ^ 52 + n := by
  have hr : roundDiv num (den * Nat.pow 2 e) = n := roundDiv_eq hlow hup
  show scaleOf num den * leadingBit + roundDiv num (den * Nat.pow 2 (scaleOf num den)) = _
  rw [hs, hr]
  rfl

/-- A fraction near a number rounds to it. Below a power of two the fraction may have a
    smaller scale than the number; it then rounds up into the next scale. -/
theorem magnitudeOf_near {num den e f : Nat} (hden : 0 < den) (hf : 0 < f)
    (hc : Canonical e f) (hn : Near num den (f * 2 ^ e)) :
    magnitudeOf num den = e * 2 ^ 52 + f := by
  obtain ⟨hlow, hup⟩ := hn
  have hflt := hc.lt
  have hfD : f * 2 ^ e * den = f * (den * 2 ^ e) := by ring
  rw [hfD] at hlow hup
  have h53 : den * 2 ^ (e + 53) = 2 ^ 53 * (den * 2 ^ e) := by ring
  have h52 : den * 2 ^ (e + 52) = 2 ^ 52 * (den * 2 ^ e) := by ring
  have hD : 0 < den * 2 ^ e := Nat.mul_pos hden (Nat.two_pow_pos e)
  have hfle : f * (den * 2 ^ e) ≤ (2 ^ 53 - 1) * (den * 2 ^ e) :=
    Nat.mul_le_mul_right _ (by omega)
  by_cases hcase : e = 0 ∨ den * 2 ^ (e + 52) ≤ num
  · refine magnitudeOf_of_scale (scaleOf_eq hden ?_ hcase) ?_ ?_
    · rw [h53]
      generalize den * 2 ^ e = D at *
      generalize f * D = F at *
      omega
    · generalize den * 2 ^ e = D at *
      generalize f * D = F at *
      omega
    · generalize den * 2 ^ e = D at *
      generalize f * D = F at *
      omega
  · -- the number is a power of two, and the fraction below it
    rw [not_or, Nat.not_le, h52] at hcase
    obtain ⟨he, hlt⟩ := hcase
    have hfge : 2 ^ 52 ≤ f := hc.leading.resolve_left he
    have hf52 : f = 2 ^ 52 := by
      rcases Nat.lt_or_ge (2 ^ 52) f with hgt | hle
      · have := Nat.mul_le_mul_right (den * 2 ^ e) (Nat.succ_le_of_lt hgt)
        rw [Nat.succ_mul] at this
        generalize den * 2 ^ e = D at *
        generalize f * D = F at *
        omega
      · omega
    obtain ⟨k, rfl⟩ := Nat.exists_eq_succ_of_ne_zero he
    subst hf52
    have hD2 : den * 2 ^ (k + 1) = 2 * (den * 2 ^ k) := by ring
    rw [Nat.succ_eq_add_one, hD2] at hlow hup hlt
    have hm : magnitudeOf num den = k * 2 ^ 52 + 2 ^ 53 := by
      have hk53 : den * 2 ^ (k + 53) = 2 ^ 53 * (den * 2 ^ k) := by ring
      have hk52 : den * 2 ^ (k + 52) = 2 ^ 52 * (den * 2 ^ k) := by ring
      refine magnitudeOf_of_scale (scaleOf_eq hden ?_ (Or.inr ?_)) ?_ ?_
      · rw [hk53]
        omega
      · rw [hk52]
        omega
      · omega
      · omega
    rw [hm]
    omega

/-- The magnitude depends on the value of the fraction alone. -/
theorem magnitudeOf_mul_right (num den c : Nat) (hc : 0 < c) :
    magnitudeOf (num * c) (den * c) = magnitudeOf num den := by
  have hs : scaleOf (num * c) (den * c) = scaleOf num den := by
    rw [scaleOf, scaleOf, Nat.mul_div_mul_right _ _ hc]
  rw [magnitudeOf, magnitudeOf, hs]
  show _ + roundDiv (num * c) (den * c * 2 ^ scaleOf num den) = _
  rw [Nat.mul_right_comm, roundDiv_mul_right _ _ _ hc]
  rfl

/-- Equal quotients have equal magnitudes. -/
theorem magnitudeOf_congr {num den num' den' : Nat} (hden : 0 < den) (hden' : 0 < den')
    (h : num * den' = num' * den) : magnitudeOf num den = magnitudeOf num' den' := by
  rw [← magnitudeOf_mul_right num den den' hden', h, Nat.mul_comm den den',
    magnitudeOf_mul_right num' den' den hden]

/-- A whole multiple of the unit with a canonical scale is its own rounding. -/
theorem magnitudeOf_canonical {e f : Nat} (hc : Canonical e f) :
    magnitudeOf (f * 2 ^ e) 1 = e * 2 ^ 52 + f := by
  rcases Nat.eq_zero_or_pos f with rfl | hf
  · have he : e = 0 := hc.leading.resolve_right (by omega)
    subst he
    rfl
  · exact magnitudeOf_near Nat.one_pos hf hc (near_self _)

/-- A number is its own rounding. -/
theorem magnitudeOf_units (x : Number) : magnitudeOf x.units 1 = x.magnitude := by
  rw [units_eq, magnitudeOf_canonical (canonical_scale x), magnitude_eq]

/-- Of two multiples of the unit the smaller has the smaller magnitude. -/
theorem Canonical.lt_of_units_lt {e f e' f' : Nat} (h : Canonical e f) (h' : Canonical e' f')
    (hlt : f * 2 ^ e < f' * 2 ^ e') : e * 2 ^ 52 + f < e' * 2 ^ 52 + f' := by
  have hf := h.lt
  have hf' := h'.lt
  rcases Nat.lt_trichotomy e e' with he | rfl | he
  · have := h'.leading
    omega
  · have := Nat.lt_of_mul_lt_mul_right hlt
    omega
  · -- a larger scale makes the multiple larger, whatever the significands
    obtain ⟨d, rfl⟩ := Nat.exists_eq_add_of_lt he
    have hlead : 2 ^ 52 ≤ f := h.leading.resolve_left (by omega)
    have hge : 2 ^ 52 * 2 ^ (e' + d + 1) ≤ f * 2 ^ (e' + d + 1) := Nat.mul_le_mul_right _ hlead
    have hsplit : 2 ^ 52 * 2 ^ (e' + d + 1) = 2 ^ 53 * 2 ^ e' * 2 ^ d := by ring
    have hd : 2 ^ 53 * 2 ^ e' * 1 ≤ 2 ^ 53 * 2 ^ e' * 2 ^ d :=
      Nat.mul_le_mul_left _ (Nat.two_pow_pos d)
    have hlt' : f' * 2 ^ e' ≤ 2 ^ 53 * 2 ^ e' := Nat.mul_le_mul_right _ (by omega)
    omega

-- ── Rounding keeps the order ────────────────────────────────────────────────

/-- A rounded quotient is not below the quotient. -/
theorem div_le_roundDiv (num den : Nat) : num / den ≤ roundDiv num den := by
  simp only [roundDiv]
  split
  · exact Nat.le_refl _
  · split <;> omega

/-- A rounded quotient is at most one above the quotient. -/
theorem roundDiv_le (num den : Nat) : roundDiv num den ≤ num / den + 1 := by
  have := Nat.mod_lt (num / den) (by decide : 2 > 0)
  simp only [roundDiv]
  split
  · omega
  · split <;> omega

/-- Rounding keeps the order of numerators. -/
theorem roundDiv_mono {num num' : Nat} (den : Nat) (h : num ≤ num') :
    roundDiv num den ≤ roundDiv num' den := by
  have hq := Nat.div_le_div_right (c := den) h
  rcases Nat.lt_or_eq_of_le hq with hlt | heq
  · exact (roundDiv_le num den).trans ((Nat.succ_le_of_lt hlt).trans (div_le_roundDiv num' den))
  · have hdm := Nat.div_add_mod num den
    have hdm' := Nat.div_add_mod num' den
    rw [heq] at hdm
    have hmod : num % den ≤ num' % den := by omega
    simp only [roundDiv, heq]
    -- below, above and at the half, on both sides
    repeat' split
    all_goals omega

/-- The rounded significand carries into the next scale at most. -/
theorem roundDiv_scaleOf_le (u : Nat) : roundDiv u (1 * 2 ^ scaleOf u 1) ≤ 2 ^ 53 := by
  have hquot : u / (1 * 2 ^ scaleOf u 1) < 2 ^ 53 := by
    rw [Nat.one_mul, Nat.div_lt_iff_lt_mul (Nat.two_pow_pos _), ← Nat.pow_add]
    refine Nat.lt_of_lt_of_le (Nat.lt_log2_self : u < 2 ^ (u.log2 + 1)) ?_
    refine Nat.pow_le_pow_right (by decide) ?_
    rw [scaleOf, Nat.div_one]
    omega
  exact (roundDiv_le _ _).trans hquot

/-- Above the least scale the rounded significand has its leading bit. -/
theorem le_roundDiv_scaleOf {u : Nat} (h : 0 < scaleOf u 1) :
    2 ^ 52 ≤ roundDiv u (1 * 2 ^ scaleOf u 1) := by
  have hlog : u.log2 = scaleOf u 1 + 52 := by
    rw [scaleOf, Nat.div_one] at h ⊢
    omega
  have hu : u ≠ 0 := by
    rintro rfl
    rw [Nat.log2_zero] at hlog
    omega
  have hlow := Nat.log2_self_le hu
  rw [hlog] at hlow
  refine Nat.le_trans ?_ (div_le_roundDiv _ _)
  rw [Nat.one_mul, Nat.le_div_iff_mul_le (Nat.two_pow_pos _), ← Nat.pow_add, Nat.add_comm]
  exact hlow

/-- Rounding keeps the order of numbers. -/
theorem magnitudeOf_mono {u u' : Nat} (h : u ≤ u') : magnitudeOf u 1 ≤ magnitudeOf u' 1 := by
  have hscale : scaleOf u 1 ≤ scaleOf u' 1 := by
    rw [scaleOf, scaleOf, Nat.div_one, Nat.div_one]
    rcases Nat.eq_zero_or_pos u with rfl | hpos
    · rw [Nat.log2_zero]
      omega
    · have hlow := Nat.log2_self_le (by omega : u ≠ 0)
      have hlog : u.log2 ≤ u'.log2 := (Nat.le_log2 (by omega)).mpr (hlow.trans h)
      omega
  show scaleOf u 1 * leadingBit + roundDiv u (1 * 2 ^ scaleOf u 1)
    ≤ scaleOf u' 1 * leadingBit + roundDiv u' (1 * 2 ^ scaleOf u' 1)
  rcases Nat.lt_or_eq_of_le hscale with hlt | heq
  · have hup := roundDiv_scaleOf_le u
    have hlow := le_roundDiv_scaleOf (u := u') (by omega)
    simp only [leadingBit]
    omega
  · rw [heq]
    exact Nat.add_le_add_left (roundDiv_mono _ h) _

-- ── Natural numbers and integers ────────────────────────────────────────────

/-- A natural number below `2 ^ 53` is a whole multiple of the unit with a canonical
    scale. -/
theorem exists_canonical {n : Nat} (hpos : 0 < n) (hn : n < 2 ^ 53) :
    ∃ e f, Canonical e f ∧ f * 2 ^ e = n * unitsPerOne ∧ e ≤ 1074 := by
  have hlog : n.log2 < 53 := (Nat.log2_lt (by omega)).mpr hn
  obtain ⟨hlow, hup⟩ := (Nat.log2_eq_iff (by omega : n ≠ 0)).mp rfl
  refine ⟨1022 + n.log2, n * 2 ^ (52 - n.log2), ⟨?_, Or.inr ?_⟩, ?_, by omega⟩
  · calc n * 2 ^ (52 - n.log2) < 2 ^ (n.log2 + 1) * 2 ^ (52 - n.log2) :=
          Nat.mul_lt_mul_of_pos_right hup (Nat.two_pow_pos _)
      _ = 2 ^ 53 := by
          rw [← Nat.pow_add]
          congr 1
          omega
  · calc 2 ^ 52 = 2 ^ n.log2 * 2 ^ (52 - n.log2) := by
          rw [← Nat.pow_add]
          congr 1
          omega
      _ ≤ n * 2 ^ (52 - n.log2) := Nat.mul_le_mul_right _ hlow
  · have he : 52 - n.log2 + (1022 + n.log2) = 1074 := by omega
    rw [unitsPerOne_eq, Nat.mul_assoc, ← Nat.pow_add, he]

/-- A natural number below `2 ^ 53` is finite. -/
theorem magnitudeOf_nat_lt {n : Nat} (hn : n < 2 ^ 53) :
    magnitudeOf (n * unitsPerOne) 1 < infiniteMagnitude := by
  rcases Nat.eq_zero_or_pos n with rfl | hpos
  · rw [Nat.zero_mul]
    decide
  · obtain ⟨e, f, hc, heq, he⟩ := exists_canonical hpos hn
    rw [← heq, magnitudeOf_canonical hc]
    have := hc.lt
    simp only [infiniteMagnitude, leadingBit]
    omega

theorem magnitude_ofNat {n : Nat} (hn : n < 2 ^ 53) :
    (ofNat n).magnitude = magnitudeOf (n * unitsPerOne) 1 :=
  Nat.min_eq_left (magnitudeOf_nat_lt hn).le

/-- The natural numbers below `2 ^ 53` are kept apart and in order. -/
theorem ofNat_lt_ofNat {m n : Nat} (hmn : m < n) (hn : n < 2 ^ 53) :
    (ofNat m).magnitude < (ofNat n).magnitude := by
  obtain ⟨e', f', hc', heq', _⟩ := exists_canonical (by omega) hn
  have hlt : m * unitsPerOne < n * unitsPerOne :=
    Nat.mul_lt_mul_of_pos_right hmn unitsPerOne_pos
  rw [magnitude_ofNat hn, magnitude_ofNat (hmn.trans hn), ← heq', magnitudeOf_canonical hc']
  rcases Nat.eq_zero_or_pos m with rfl | hpos
  · have hlead := hc'.leading
    have hf' : 0 < f' := by
      refine Nat.pos_of_ne_zero ?_
      rintro rfl
      rw [Nat.zero_mul] at heq'
      rw [← heq'] at hlt
      exact Nat.not_lt_zero _ hlt
    have hzero : magnitudeOf 0 1 = 0 := by decide
    rw [Nat.zero_mul, hzero]
    omega
  · obtain ⟨e, f, hc, heq, _⟩ := exists_canonical hpos (hmn.trans hn)
    rw [← heq, magnitudeOf_canonical hc]
    refine hc.lt_of_units_lt hc' ?_
    rw [heq, heq']
    exact hlt

/-- The conversion of natural numbers keeps their order, also where it rounds. -/
theorem ofNat_le_ofNat {m n : Nat} (h : m ≤ n) : (ofNat m).magnitude ≤ (ofNat n).magnitude := by
  have hmono := magnitudeOf_mono (Nat.mul_le_mul_right unitsPerOne h)
  show min _ _ ≤ min _ _
  omega

theorem isNaN_ofMagnitude (negative : Bool) (magnitude : Nat) :
    (ofMagnitude negative magnitude).isNaN = false := by
  simp [isNaN, ofMagnitude]

/-- A number made of a magnitude is finite or infinite. -/
theorem isFinite_or_eq_infinity (negative : Bool) (magnitude : Nat) :
    (ofMagnitude negative magnitude).isFinite = true ∨
      ofMagnitude negative magnitude = infinity negative := by
  rcases Nat.lt_or_ge magnitude infiniteMagnitude with hlt | hge
  · exact Or.inl (decide_eq_true (Nat.lt_of_le_of_lt (Nat.min_le_left _ _) hlt))
  · refine Or.inr ?_
    simp only [infinity, ofMagnitude, Nat.min_eq_right hge, Nat.min_self]

theorem isNaN_of_isFinite {x : Number} (h : x.isFinite = true) : x.isNaN = false := by
  simp only [isFinite, isNaN, decide_eq_true_eq, decide_eq_false_iff_not] at h ⊢
  omega

/-- An integer of sixty-four bits is finite. -/
theorem isFinite_ofInt {n : Int} (h : n.natAbs < 2 ^ 64) : (ofInt n).isFinite = true := by
  have hm : magnitudeOf (n.natAbs * unitsPerOne) 1 < infiniteMagnitude := by
    have hlt : n.natAbs * unitsPerOne < 2 ^ 1138 := by
      calc n.natAbs * unitsPerOne < 2 ^ 64 * unitsPerOne :=
            Nat.mul_lt_mul_of_pos_right h unitsPerOne_pos
        _ = 2 ^ 1138 := by rw [unitsPerOne_eq, ← Nat.pow_add]
    generalize n.natAbs * unitsPerOne = u at hlt
    have hscale : scaleOf u 1 ≤ 1085 := by
      rw [scaleOf, Nat.div_one]
      rcases Nat.eq_zero_or_pos u with rfl | hpos
      · decide
      · have := (Nat.log2_lt (by omega)).mpr hlt
        omega
    have hround := roundDiv_scaleOf_le u
    show scaleOf u 1 * leadingBit + roundDiv u (1 * 2 ^ scaleOf u 1) < infiniteMagnitude
    simp only [infiniteMagnitude, leadingBit]
    omega
  exact decide_eq_true (Nat.lt_of_le_of_lt (Nat.min_le_left _ _) hm)

end DocQuery.Number
