import DocQuery.Number.Decimal
import DocQuery.Proofs.Number.Rounding

/-!
# The shortest decimal reads back

On the grid of seventeen digits the neighbour of a number lies within one part in
`2 * 10 ^ 16` of it, so it rounds to the number. Main statements:

* `readsBack_shortest` — the decimal that is written rounds to the number it was made from;
* `ofDecimal_mul_pow` — zeros at the end of the digits count as powers of ten.
-/

namespace DocQuery.Number

-- ── Counting digits ─────────────────────────────────────────────────────────

/-- A number is less than the power of ten of its digit count. -/
theorem lt_pow_digitCount (n : Nat) : n < 10 ^ digitCount n := by
  induction n using digitCount.induct with
  | case1 => exact Nat.pow_pos (by decide)
  | case2 n hn ih =>
      rw [digitCount, if_neg hn, Nat.pow_succ]
      omega

/-- The power of ten of the digit count is at most ten times the number. -/
theorem pow_digitCount_le {n : Nat} (h : n ≠ 0) : 10 ^ digitCount n ≤ 10 * n := by
  induction n using digitCount.induct with
  | case1 => exact absurd rfl h
  | case2 n hn ih =>
      rw [digitCount, if_neg hn, Nat.pow_succ]
      by_cases h0 : n / 10 = 0
      · rw [h0, digitCount, if_pos rfl]
        omega
      · have := ih h0
        omega

theorem le_digitCount {n c : Nat} (h : 10 ^ c ≤ n) : c < digitCount n :=
  (Nat.pow_lt_pow_iff_right (by decide)).mp (h.trans_lt (lt_pow_digitCount n))

theorem digitCount_le {n c : Nat} (hn : n ≠ 0) (h : n < 10 ^ c) : digitCount n ≤ c := by
  have hlt : 10 ^ digitCount n < 10 ^ (c + 1) := by
    refine (pow_digitCount_le hn).trans_lt ?_
    rw [Nat.pow_succ]
    omega
  exact Nat.le_of_lt_succ ((Nat.pow_lt_pow_iff_right (by decide)).mp hlt)

theorem digitCount_mul_ten {n : Nat} (h : n ≠ 0) : digitCount (n * 10) = digitCount n + 1 := by
  rw [digitCount, if_neg (by omega), Nat.mul_div_cancel _ (by decide)]

/-- The leading digit of a fraction stands at its leading exponent. -/
theorem leadingExponent_spec {num den : Nat} (hnum : 0 < num) (hden : 0 < den) :
    10 ^ (leadingExponent num den).toNat * den
        ≤ num * 10 ^ (-leadingExponent num den).toNat ∧
      num * 10 ^ (-leadingExponent num den).toNat
        < 10 * (10 ^ (leadingExponent num den).toNat * den) := by
  rw [leadingExponent]
  split
  · rename_i hle
    have hq : num / den ≠ 0 := (Nat.div_pos hle hden).ne'
    have hpos : 0 < digitCount (num / den) := 
      le_digitCount (c := 0) (Nat.pos_of_ne_zero hq)
    obtain ⟨c, hc⟩ := Nat.exists_eq_succ_of_ne_zero hpos.ne'
    have hup := lt_pow_digitCount (num / den)
    have hlow := pow_digitCount_le hq
    rw [hc, Nat.succ_eq_add_one, Nat.pow_succ] at hup hlow
    have h₁ : ((digitCount (num / den) : Int) - 1).toNat = c := by omega
    have h₂ : (-((digitCount (num / den) : Int) - 1)).toNat = 0 := by omega
    rw [h₁, h₂, Nat.pow_zero, Nat.mul_one]
    constructor
    · exact (Nat.le_div_iff_mul_le hden).mp (by omega)
    · have := (Nat.div_lt_iff_lt_mul hden).mp hup
      rw [Nat.mul_right_comm] at this
      omega
  · rename_i hlt
    have ht : (den - 1) / num ≠ 0 := (Nat.div_pos (by omega) hnum).ne'
    have hup := lt_pow_digitCount ((den - 1) / num)
    have hlow := pow_digitCount_le ht
    have h₁ : (-(digitCount ((den - 1) / num) : Int)).toNat = 0 := by omega
    have h₂ : (- -(digitCount ((den - 1) / num) : Int)).toNat = digitCount ((den - 1) / num) := by
      omega
    rw [h₁, h₂, Nat.pow_zero, Nat.one_mul]
    constructor
    · have := (Nat.div_lt_iff_lt_mul hnum).mp hup
      rw [Nat.mul_comm num]
      omega
    · have h₃ := Nat.mul_le_mul_right num hlow
      have h₄ := Nat.div_mul_le_self (den - 1) num
      rw [Nat.mul_assoc] at h₃
      rw [Nat.mul_comm num]
      omega

-- ── Reading decimals ────────────────────────────────────────────────────────

/-- Within the range of all numbers a decimal is read by one rounding. -/
theorem ofDecimal_eq (negative : Bool) {digits : Nat} {exponent : Int} (hd : digits ≠ 0)
    (hlow : -330 ≤ exponent + digitCount digits) (hup : exponent + digitCount digits ≤ 310) :
    ofDecimal negative digits exponent
      = ofUnits negative (digits * 10 ^ exponent.toNat * unitsPerOne)
          (10 ^ (-exponent).toNat) := by
  have h₁ : ¬ (digits = 0 ∨ exponent + digitCount digits < -330) := by omega
  have h₂ : ¬ 310 < exponent + digitCount digits := by omega
  simp only [ofDecimal, if_neg h₁, if_neg h₂]
  split
  · rename_i h
    rw [Int.toNat_of_nonpos (by omega), Nat.pow_zero, Nat.mul_one,
      show (-exponent).toNat = exponent.natAbs by omega]
    rfl
  · rename_i h
    rw [Int.toNat_of_nonpos (by omega : -exponent ≤ 0), Nat.pow_zero,
      show exponent.toNat = exponent.natAbs by omega]
    rfl

/-- A zero at the end is the same as a greater exponent. -/
theorem ofDecimal_mul_ten (negative : Bool) (digits : Nat) (exponent : Int) :
    ofDecimal negative (digits * 10) exponent = ofDecimal negative digits (exponent + 1) := by
  by_cases hd : digits = 0
  · subst hd
    simp [ofDecimal]
  have hcount := digitCount_mul_ten hd
  have hlead : exponent + (digitCount (digits * 10) : Int) = exponent + 1 + digitCount digits := by
    omega
  by_cases hlow : exponent + 1 + (digitCount digits : Int) < -330
  · simp [ofDecimal, hlead, hlow]
  by_cases hup : 310 < exponent + 1 + (digitCount digits : Int)
  · have hd10 : ¬ (digits * 10 = 0 ∨ exponent + 1 + (digitCount digits : Int) < -330) := by omega
    have hd1 : ¬ (digits = 0 ∨ exponent + 1 + (digitCount digits : Int) < -330) := by omega
    simp only [ofDecimal, hlead, if_neg hd10, if_neg hd1, if_pos hup]
  rw [ofDecimal_eq negative (by omega) (by omega) (by omega),
    ofDecimal_eq negative hd (by omega) (by omega), ofUnits, ofUnits]
  refine congrArg (ofMagnitude negative) ?_
  refine magnitudeOf_congr (Nat.pow_pos (by decide)) (Nat.pow_pos (by decide)) ?_
  -- one of the two exponents is negative at most
  have hpow : 10 * 10 ^ exponent.toNat * 10 ^ (-(exponent + 1)).toNat
      = 10 ^ (exponent + 1).toNat * 10 ^ (-exponent).toNat := by
    rw [← Nat.pow_succ', ← Nat.pow_add, ← Nat.pow_add]
    congr 1
    omega
  calc digits * 10 * 10 ^ exponent.toNat * unitsPerOne * 10 ^ (-(exponent + 1)).toNat
      = digits * (10 * 10 ^ exponent.toNat * 10 ^ (-(exponent + 1)).toNat) * unitsPerOne := by ring
    _ = digits * (10 ^ (exponent + 1).toNat * 10 ^ (-exponent).toNat) * unitsPerOne := by rw [hpow]
    _ = digits * 10 ^ (exponent + 1).toNat * unitsPerOne * 10 ^ (-exponent).toNat := by ring

/-- Zeros at the end of the digits count as powers of ten. -/
theorem ofDecimal_mul_pow (negative : Bool) (digits : Nat) (exponent : Int) (zeros : Nat) :
    ofDecimal negative (digits * 10 ^ zeros) exponent
      = ofDecimal negative digits (exponent + zeros) := by
  induction zeros generalizing exponent with
  | zero => simp
  | succ n ih =>
      rw [Nat.pow_succ, ← Nat.mul_assoc, ofDecimal_mul_ten, ih]
      congr 1
      push_cast
      omega

theorem magnitude_ofUnits (negative : Bool) (num den : Nat) :
    (ofUnits negative num den).magnitude = min (magnitudeOf num den) infiniteMagnitude :=
  rfl

theorem negative_ofDecimal (negative : Bool) (digits : Nat) (exponent : Int) :
    (ofDecimal negative digits exponent).negative = negative := by
  simp only [ofDecimal]
  split
  · rfl
  · split
    · rfl
    · split <;> rfl

-- ── Seventeen digits suffice ────────────────────────────────────────────────

variable {x : Number}

/-- A magnitude other than zero has a significand other than zero. -/
theorem significand_pos (h0 : x.magnitude ≠ 0) : 0 < x.significand := by
  have hlead := (canonical_scale x).leading
  have hm := magnitude_eq x
  omega

/-- A magnitude other than zero stands for some units. -/
theorem units_pos (h0 : x.magnitude ≠ 0) : 0 < x.units := by
  rw [units_eq]
  exact Nat.mul_pos (significand_pos h0) (Nat.two_pow_pos _)

/-- A finite number is less than two to the power of 1024. -/
theorem units_lt (hx : x.isFinite = true) : x.units < 2 ^ 1024 * unitsPerOne := by
  have hscale : x.scale ≤ 2045 := by
    have hlt : x.magnitude < 2047 * leadingBit := of_decide_eq_true hx
    simp only [scale, leadingBit] at hlt ⊢
    omega
  calc x.units < 2 ^ 53 * 2 ^ x.scale := by
        rw [units_eq]
        exact Nat.mul_lt_mul_of_pos_right (canonical_scale x).lt (Nat.two_pow_pos _)
    _ ≤ 2 ^ 53 * 2 ^ 2045 := Nat.mul_le_mul_left _ (Nat.pow_le_pow_right (by decide) hscale)
    _ = 2 ^ 1024 * unitsPerOne := by rw [unitsPerOne_eq, ← Nat.pow_add, ← Nat.pow_add]

/-- The leading digit of a finite number stands between the places 324 after the point and
    308 before it. -/
theorem leadingExponent_bounds (hx : x.isFinite = true) (h0 : x.magnitude ≠ 0) :
    -324 ≤ leadingExponent x.units unitsPerOne ∧ leadingExponent x.units unitsPerOne ≤ 308 := by
  obtain ⟨hlow, hup⟩ := leadingExponent_spec (units_pos h0) unitsPerOne_pos
  have hpos := units_pos h0
  have hlt := units_lt hx
  generalize leadingExponent x.units unitsPerOne = e at hlow hup
  constructor
  · by_contra hneg
    have h325 : 10 ^ 325 ≤ 10 ^ (-e).toNat := Nat.pow_le_pow_right (by decide) (by omega)
    have hU : 10 * unitsPerOne < 10 ^ 325 := by decide +kernel
    simp only [Int.toNat_of_nonpos (by omega : e ≤ 0), Nat.pow_zero, Nat.one_mul] at hup
    have hmul : 10 ^ (-e).toNat ≤ x.units * 10 ^ (-e).toNat := Nat.le_mul_of_pos_left _ hpos
    exact Nat.lt_irrefl _ (hU.trans_le (h325.trans (hmul.trans hup.le)))
  · by_contra hneg
    have h309 : 10 ^ 309 ≤ 10 ^ e.toNat := Nat.pow_le_pow_right (by decide) (by omega)
    have hbig : 2 ^ 1024 ≤ 10 ^ 309 := by decide +kernel
    rw [Int.toNat_of_nonpos (by omega : -e ≤ 0), Nat.pow_zero, Nat.mul_one] at hlow
    have hmul := Nat.mul_le_mul_right unitsPerOne (hbig.trans h309)
    exact Nat.lt_irrefl _ (hlt.trans_le (hmul.trans hlow))

/-- A decimal near a number reads back as the number. -/
theorem readsBack_of_near {d : Decimal} (hx : x.isFinite = true) (h0 : x.magnitude ≠ 0)
    (hd : d.digits ≠ 0) (hlow : -330 ≤ d.exponent + digitCount d.digits)
    (hup : d.exponent + digitCount d.digits ≤ 310)
    (hn : Near (d.digits * 10 ^ d.exponent.toNat * unitsPerOne) (10 ^ (-d.exponent).toNat)
      x.units) : x.readsBack d = true := by
  rw [units_eq] at hn
  have hm := magnitudeOf_near (Nat.pow_pos (by decide)) (significand_pos h0) (canonical_scale x) hn
  rw [← magnitude_eq] at hm
  have hfin : x.magnitude < infiniteMagnitude := of_decide_eq_true hx
  rw [readsBack, ofDecimal_eq x.negative hd hlow hup, beq_iff_eq, magnitude_ofUnits, hm,
    Nat.min_eq_left hfin.le]

/-- A neighbour is offered only if it is read back. -/
theorem readsBack_of_neighbour? {tie : Tie} {k : Int} {below : Nat} {half : Ordering}
    {d : Decimal} (h : x.neighbour? tie k below half = some d) : x.readsBack d = true := by
  unfold neighbour? at h
  dsimp only at h
  cases hlow : x.readsBack ⟨below, k⟩ <;> cases hhigh : x.readsBack ⟨below + 1, k⟩ <;>
    rw [hlow, hhigh] at h
  · exact nomatch h
  · rw [← Option.some.inj h]
    exact hhigh
  · rw [← Option.some.inj h]
    exact hlow
  · cases half with
    | lt =>
        rw [← Option.some.inj h]
        exact hlow
    | gt =>
        rw [← Option.some.inj h]
        exact hhigh
    | eq =>
        cases tie with
        | upward =>
            rw [← Option.some.inj h]
            exact hhigh
        | toEven =>
            rw [← Option.some.inj h]
            split
            · exact hlow
            · exact hhigh

/-- Whatever is found with a number of digits is read back. -/
theorem readsBack_of_withDigits? {tie : Tie} {count : Nat} {d : Decimal}
    (h : x.withDigits? tie count = some d) : x.readsBack d = true := by
  rw [withDigits?] at h
  generalize leadingExponent x.units unitsPerOne - count + 1 = k at h
  generalize gridBelow x.units unitsPerOne k = grid at h
  exact readsBack_of_neighbour? h

/-- If one of both neighbours is read back, one is offered. -/
theorem isSome_neighbour? {tie : Tie} {k : Int} {below : Nat} {half : Ordering}
    (h : x.readsBack ⟨below, k⟩ = true ∨ x.readsBack ⟨below + 1, k⟩ = true) :
    (x.neighbour? tie k below half).isSome = true := by
  unfold neighbour?
  dsimp only
  cases hlow : x.readsBack ⟨below, k⟩ <;> cases hhigh : x.readsBack ⟨below + 1, k⟩
  · rw [hlow, hhigh] at h
    simp at h
  · rfl
  · rfl
  · cases half
    · rfl
    · cases tie <;> rfl
    · rfl

/-- A point of a grid with seventeen digits is near if it is half a step away at most. -/
theorem near_of_dist {num den n step : Nat} (hgrid : 10 ^ 16 * step ≤ n * den)
    (hlow : 2 * (n * den) ≤ 2 * num + step) (hup : 2 * num ≤ 2 * (n * den) + step) :
    Near num den n := by
  constructor <;> omega

/-- One of the neighbours on a grid of seventeen digits reads back. -/
theorem isSome_neighbour?_of_grid {tie : Tie} {k : Int} {below step : Nat} {half : Ordering}
    (hx : x.isFinite = true) (h0 : x.magnitude ≠ 0) (hk : -340 ≤ k) (hk' : k ≤ 292)
    (hstep : step = unitsPerOne * 10 ^ k.toNat)
    (hgrid : 10 ^ 16 * step ≤ x.units * 10 ^ (-k).toNat)
    (htop : x.units * 10 ^ (-k).toNat < 10 ^ 17 * step)
    (hbelow : below = x.units * 10 ^ (-k).toNat / step) :
    (x.neighbour? tie k below half).isSome = true := by
  have hpos : 0 < step := by
    rw [hstep]
    exact Nat.mul_pos unitsPerOne_pos (Nat.pow_pos (by decide))
  have hlow : 10 ^ 16 ≤ below := by
    rw [hbelow]
    exact (Nat.le_div_iff_mul_le hpos).mpr hgrid
  have hup : below < 10 ^ 17 := by
    rw [hbelow]
    exact (Nat.div_lt_iff_lt_mul hpos).mpr htop
  -- a neighbour that is half a step away at most reads back
  have hread : ∀ digits, 10 ^ 16 ≤ digits → digits ≤ 10 ^ 17 →
      2 * (x.units * 10 ^ (-k).toNat) ≤ 2 * (digits * step) + step →
      2 * (digits * step) ≤ 2 * (x.units * 10 ^ (-k).toNat) + step →
      x.readsBack ⟨digits, k⟩ = true := by
    intro digits hmin hmax h₁ h₂
    have hcount : 16 < digitCount digits := le_digitCount hmin
    have hcount' : digitCount digits ≤ 18 := digitCount_le (by omega) (by omega)
    refine readsBack_of_near hx h0 (by show digits ≠ 0; omega) ?_ ?_ ?_
    · show -330 ≤ k + (digitCount digits : Int)
      omega
    · show k + (digitCount digits : Int) ≤ 310
      omega
    · have hnum : digits * 10 ^ k.toNat * unitsPerOne = digits * step := by
        rw [hstep, Nat.mul_assoc, Nat.mul_comm unitsPerOne]
      show Near (digits * 10 ^ k.toNat * unitsPerOne) (10 ^ (-k).toNat) x.units
      rw [hnum]
      exact near_of_dist hgrid h₁ h₂
  have hdiv := Nat.div_add_mod (x.units * 10 ^ (-k).toNat) step
  rw [← hbelow, Nat.mul_comm] at hdiv
  have hrest := Nat.mod_lt (x.units * 10 ^ (-k).toNat) hpos
  have hsucc : (below + 1) * step = below * step + step := Nat.succ_mul _ _
  refine isSome_neighbour? ?_
  rcases Nat.le_total (2 * (x.units * 10 ^ (-k).toNat % step)) step with hhalf | hhalf
  · exact Or.inl (hread below hlow hup.le (by omega) (by omega))
  · exact Or.inr (hread (below + 1) (by omega) (by omega) (by omega) (by omega))

/-- With seventeen digits there is a decimal that reads back. -/
theorem isSome_withDigits? (tie : Tie) (hx : x.isFinite = true) (h0 : x.magnitude ≠ 0) :
    (x.withDigits? tie 17).isSome = true := by
  obtain ⟨hlow, hup⟩ := leadingExponent_spec (units_pos h0) unitsPerOne_pos
  obtain ⟨hmin, hmax⟩ := leadingExponent_bounds hx h0
  rw [withDigits?]
  generalize leadingExponent x.units unitsPerOne = e at hlow hup hmin hmax
  obtain ⟨k, rfl⟩ : ∃ k, e = k + 16 := ⟨e - 16, by omega⟩
  have hk : k + 16 - ((17 : Nat) : Int) + 1 = k := by omega
  rw [hk]
  -- the powers of ten at the leading digit move over to the grid
  have hmove : 10 ^ (k + 16).toNat * unitsPerOne * 10 ^ (-k).toNat
      = 10 ^ 16 * (unitsPerOne * 10 ^ k.toNat) * 10 ^ (-(k + 16)).toNat := by
    have hshift : (k + 16).toNat + (-k).toNat = 16 + k.toNat + (-(k + 16)).toNat := by omega
    calc 10 ^ (k + 16).toNat * unitsPerOne * 10 ^ (-k).toNat
        = unitsPerOne * 10 ^ ((k + 16).toNat + (-k).toNat) := by
          rw [Nat.pow_add]
          ring
      _ = unitsPerOne * 10 ^ (16 + k.toNat + (-(k + 16)).toNat) := by rw [hshift]
      _ = 10 ^ 16 * (unitsPerOne * 10 ^ k.toNat) * 10 ^ (-(k + 16)).toNat := by
          rw [Nat.pow_add, Nat.pow_add]
          ring
  have hpos : 0 < 10 ^ (-(k + 16)).toNat := Nat.pow_pos (by decide)
  have hpos' : 0 < 10 ^ (-k).toNat := Nat.pow_pos (by decide)
  refine isSome_neighbour?_of_grid hx h0 (by omega) (by omega) rfl ?_ ?_ rfl
  · refine Nat.le_of_mul_le_mul_right ?_ hpos
    calc 10 ^ 16 * (unitsPerOne * 10 ^ k.toNat) * 10 ^ (-(k + 16)).toNat
        = 10 ^ (k + 16).toNat * unitsPerOne * 10 ^ (-k).toNat := hmove.symm
      _ ≤ x.units * 10 ^ (-(k + 16)).toNat * 10 ^ (-k).toNat := Nat.mul_le_mul_right _ hlow
      _ = x.units * 10 ^ (-k).toNat * 10 ^ (-(k + 16)).toNat := Nat.mul_right_comm _ _ _
  · refine Nat.lt_of_mul_lt_mul_right (a := 10 ^ (-(k + 16)).toNat) ?_
    calc x.units * 10 ^ (-k).toNat * 10 ^ (-(k + 16)).toNat
        = x.units * 10 ^ (-(k + 16)).toNat * 10 ^ (-k).toNat := Nat.mul_right_comm _ _ _
      _ < 10 * (10 ^ (k + 16).toNat * unitsPerOne) * 10 ^ (-k).toNat :=
          Nat.mul_lt_mul_of_pos_right hup hpos'
      _ = 10 * (10 ^ (k + 16).toNat * unitsPerOne * 10 ^ (-k).toNat) := Nat.mul_assoc _ _ _
      _ = 10 ^ 17 * (unitsPerOne * 10 ^ k.toNat) * 10 ^ (-(k + 16)).toNat := by
          rw [hmove]
          ring

/-- The decimal that is written rounds to the number it was made from. -/
theorem readsBack_shortest (tie : Tie) (hx : x.isFinite = true) (h0 : x.magnitude ≠ 0) :
    x.readsBack (x.shortest tie) = true := by
  have hsome := isSome_withDigits? tie hx h0
  rw [shortest]
  cases hfind : (List.range 17).findSome? fun i => x.withDigits? tie (i + 1) with
  | none =>
      have := List.findSome?_eq_none_iff.mp hfind 16 (List.mem_range.mpr (by decide))
      rw [this] at hsome
      exact nomatch hsome
  | some d' =>
      obtain ⟨i, _, hi⟩ := List.exists_of_findSome?_eq_some hfind
      exact readsBack_of_withDigits? hi

/-- Reading the decimal of a number back gives the number, its sign included. -/
theorem ofDecimal_shortest (tie : Tie) (hx : x.isFinite = true) (h0 : x.magnitude ≠ 0) :
    ofDecimal x.negative (x.shortest tie).digits (x.shortest tie).exponent = x := by
  have hmag := beq_iff_eq.mp (readsBack_shortest tie hx h0)
  have hneg := negative_ofDecimal x.negative (x.shortest tie).digits (x.shortest tie).exponent
  cases x
  cases hof : ofDecimal _ _ _
  simp_all

end DocQuery.Number
