import DocQuery.Number.Decimal
import DocQuery.Number.Numeral
import DocQuery.Proofs.Number.Decimal
import Mathlib.Data.List.TakeDrop
import Mathlib.Data.List.TakeWhile

/-!
# Numbers read back from their text

The text of a number is a sign, digits with a point among them, and an exponent at most.
Each of the three layouts is read by the same two steps: the digits are spanned, and the
decimal that they write is rounded. Main statements:

* `ofText?_finiteText` — a finite number is read back from its text, its sign included;
* `writes_toString` — the decimal digits of an integer below `2 ^ 53` write the number;
* `ofText?_numeral` — what any text is read as is written by a numeral of its own.
-/

namespace DocQuery.Number

-- ── Digits ──────────────────────────────────────────────────────────────────

/-- The value of digits is that of the library. -/
theorem digitsValue_eq (ds : List Char) : digitsValue ds = Nat.ofDigitChars 10 ds 0 := by
  rw [digitsValue, Nat.ofDigitChars_eq_foldl]
  congr 1
  funext n c
  rw [Nat.mul_comm]

/-- Digits behind others shift these by their length. -/
@[simp] theorem digitsValue_append (ds es : List Char) :
    digitsValue (ds ++ es) = digitsValue ds * 10 ^ es.length + digitsValue es := by
  rw [digitsValue_eq, digitsValue_eq, digitsValue_eq, Nat.ofDigitChars_append,
    Nat.ofDigitChars_eq_ofDigitChars_zero, Nat.mul_comm]

@[simp] theorem digitsValue_zeros (n : Nat) : digitsValue (List.replicate n '0') = 0 := by
  rw [digitsValue_eq, Nat.ofDigitChars_replicate_zero, Nat.mul_zero]

theorem toList_toString (n : Nat) : (toString n).toList = Nat.toDigits 10 n := by
  rw [Nat.toString_eq_ofList_toDigits, String.toList_ofList]

@[simp] theorem digitsValue_toDigits (n : Nat) : digitsValue (Nat.toDigits 10 n) = n := by
  rw [digitsValue_eq, Nat.ofDigitChars_ten_toDigits]

theorem all_isDigit_toDigits (n : Nat) : ∀ c ∈ Nat.toDigits 10 n, c.isDigit = true := by
  intro c hc
  exact Nat.isDigit_of_mem_toDigits (by decide) (by decide) hc

theorem all_isDigit_zeros (n : Nat) : ∀ c ∈ List.replicate n '0', c.isDigit = true := by
  intro c hc
  rw [List.eq_of_mem_replicate hc]
  rfl

/-- The text does not go on with a digit. -/
def NoDigitHead (cs : List Char) : Prop :=
  ∀ c rest, cs = c :: rest → c.isDigit = false

/-- The digits in front are cut off up to the first other character. -/
theorem spanDigits_append {ds rest : List Char} (hd : ∀ c ∈ ds, c.isDigit = true)
    (hr : NoDigitHead rest) : spanDigits (ds ++ rest) = (ds, rest) := by
  rw [spanDigits, List.span_eq_takeWhile_dropWhile, List.takeWhile_append_of_pos hd,
    List.dropWhile_append_of_pos hd]
  cases rest with
  | nil => simp
  | cons c cs =>
      have hc := hr c cs rfl
      simp [hc]

-- ── Numerals ────────────────────────────────────────────────────────────────

/-- What may follow the digits of a number in its text, and the exponent that it writes. -/
inductive Ending : List Char → Int → Prop where
  | none : Ending [] 0
  | plus (n : Nat) : Ending ('e' :: '+' :: Nat.toDigits 10 n) n
  | minus (n : Nat) : Ending ('e' :: '-' :: Nat.toDigits 10 n) (-n)

/-- An ending is read as its exponent. -/
theorem Ending.exponent?_eq {cs : List Char} {e : Int} (h : Ending cs e) :
    exponent? cs = some e := by
  have hall : ∀ n, (Nat.toDigits 10 n).all Char.isDigit = true := by
    intro n
    exact List.all_eq_true.mpr (all_isDigit_toDigits n)
  have hempty : ∀ n, (Nat.toDigits 10 n).isEmpty = false := by
    intro n
    exact List.isEmpty_eq_false_iff.mpr Nat.toDigits_ne_nil
  cases h with
  | none => rfl
  | plus n => simp [exponent?, splitSign, hall, hempty]
  | minus n => simp [exponent?, splitSign, hall, hempty]

/-- No ending opens with a digit. -/
theorem Ending.noDigitHead {cs : List Char} {e : Int} (h : Ending cs e) : NoDigitHead cs := by
  intro c rest hcs
  cases h with
  | none => exact nomatch hcs
  | plus n =>
      rw [← (List.cons.inj hcs).1]
      rfl
  | minus n =>
      rw [← (List.cons.inj hcs).1]
      rfl

/-- The characters that numerals are made of. -/
def IsNumeralChar (c : Char) : Prop :=
  c.isDigit = true ∨ c ∈ ['.', 'e', 'E', '+', '-']

/-- A sign is a character of numerals. -/
theorem isNumeralChar_of_splitSign {cs : List Char}
    (h : ∀ c ∈ (splitSign cs).2, IsNumeralChar c) : ∀ c ∈ cs, IsNumeralChar c := by
  intro c hc
  unfold splitSign at h
  split at h
  · rcases List.mem_cons.mp hc with rfl | hc
    · exact Or.inr (by decide)
    · exact h c hc
  · rcases List.mem_cons.mp hc with rfl | hc
    · exact Or.inr (by decide)
    · exact h c hc
  · exact h c hc

/-- Every character of an exponent is one of numerals. -/
theorem isNumeralChar_of_exponent? {cs : List Char} {e : Int} (h : exponent? cs = some e) :
    ∀ c ∈ cs, IsNumeralChar c := by
  cases cs with
  | nil =>
      intro c hc
      exact nomatch hc
  | cons d cs =>
      rw [exponent?, Option.ite_none_right_eq_some] at h
      obtain ⟨hd, h⟩ := h
      dsimp only at h
      rw [Option.ite_none_left_eq_some, Bool.or_eq_true, not_or, Bool.not_eq_true',
        Bool.not_eq_false] at h
      refine List.forall_mem_cons.mpr ⟨?_, ?_⟩
      · rcases hd with rfl | rfl <;> exact Or.inr (by decide)
      · refine isNumeralChar_of_splitSign ?_
        intro c hc
        exact Or.inl (List.all_eq_true.mp h.1.2 c hc)

/-- Every digit in front is a character of numerals. -/
theorem isNumeralChar_of_spanDigits {cs : List Char}
    (h : ∀ c ∈ (spanDigits cs).2, IsNumeralChar c) : ∀ c ∈ cs, IsNumeralChar c := by
  intro c hc
  rw [spanDigits, List.span_eq_takeWhile_dropWhile] at h
  rw [← List.takeWhile_append_dropWhile (p := Char.isDigit) (l := cs)] at hc
  rcases List.mem_append.mp hc with hc | hc
  · exact Or.inl (List.mem_takeWhile_imp hc)
  · exact h c hc

/-- A text that writes a number has no other characters. -/
theorem isNumeralChar_of_unsigned? {negative : Bool} {cs : List Char} {x : Number}
    (h : unsigned? negative cs = some x) : ∀ c ∈ cs, IsNumeralChar c := by
  rw [unsigned?] at h
  refine isNumeralChar_of_spanDigits ?_
  generalize spanDigits cs = front at h ⊢
  obtain ⟨whole, rest⟩ := front
  dsimp only at h ⊢
  rw [Option.ite_none_left_eq_some, Option.map_eq_some_iff] at h
  obtain ⟨-, e, he, -⟩ := h
  split at he
  · rename_i r
    refine List.forall_mem_cons.mpr ⟨Or.inr (by decide), ?_⟩
    exact isNumeralChar_of_spanDigits (isNumeralChar_of_exponent? he)
  · exact isNumeralChar_of_exponent? he

/-- The characters begin with a digit and write the number. -/
structure Spells (negative : Bool) (cs : List Char) (x : Number) : Prop where
  head : ∃ c rest, cs = c :: rest ∧ c.isDigit = true
  reads : unsigned? negative cs = some x

/-- Digits and an ending spell a numeral. -/
theorem spells_whole (negative : Bool) (whole : List Char) {ending : List Char} {e : Int}
    (hne : whole ≠ []) (hw : ∀ c ∈ whole, c.isDigit = true) (he : Ending ending e) :
    Spells negative (whole ++ ending) (ofDecimal negative (digitsValue whole) e) := by
  constructor
  · obtain ⟨c, cs, rfl⟩ := List.exists_cons_of_ne_nil hne
    exact ⟨c, cs ++ ending, rfl, hw c List.mem_cons_self⟩
  · have hempty : whole.isEmpty = false := List.isEmpty_eq_false_iff.mpr hne
    have hexp := he.exponent?_eq
    simp only [unsigned?, spanDigits_append hw he.noDigitHead]
    cases he <;> simp [hempty, hexp]

/-- Digits, a point, more digits and an ending spell a numeral. -/
theorem spells_point (negative : Bool) (whole fraction : List Char) {ending : List Char} {e : Int}
    (hne : whole ≠ []) (hw : ∀ c ∈ whole, c.isDigit = true)
    (hf : ∀ c ∈ fraction, c.isDigit = true) (he : Ending ending e) :
    Spells negative (whole ++ '.' :: (fraction ++ ending))
      (ofDecimal negative (digitsValue (whole ++ fraction)) (e - fraction.length)) := by
  constructor
  · obtain ⟨c, cs, rfl⟩ := List.exists_cons_of_ne_nil hne
    exact ⟨c, _, rfl, hw c List.mem_cons_self⟩
  · have hempty : whole.isEmpty = false := List.isEmpty_eq_false_iff.mpr hne
    have hpoint : NoDigitHead ('.' :: (fraction ++ ending)) := by
      intro c rest h
      rw [← (List.cons.inj h).1]
      rfl
    simp only [unsigned?, spanDigits_append hw hpoint, spanDigits_append hf he.noDigitHead,
      he.exponent?_eq, hempty, Bool.false_and]
    rfl

/-- The text is a sign, if it needs one, and characters that write the number. -/
def Writes (text : String) (x : Number) : Prop :=
  ∃ negative cs, text = String.ofList ((if negative then ['-'] else []) ++ cs) ∧
    Spells negative cs x

/-- A text that writes a number is read as this number. -/
theorem Writes.ofText?_eq {text : String} {x : Number} (h : Writes text x) :
    ofText? text = some x := by
  obtain ⟨negative, _, rfl, ⟨c, rest, rfl, hc⟩, hreads⟩ := h
  rw [ofText?, String.toList_ofList]
  cases negative with
  | true =>
      show (unsigned? true (c :: rest)).or _ = _
      rw [hreads]
      rfl
  | false =>
      have hsplit : splitSign (c :: rest) = (false, c :: rest) := by
        rw [splitSign]
        · rintro cs ⟨⟩
          exact nomatch hc
        · rintro cs ⟨⟩
          exact nomatch hc
      show (unsigned? (splitSign (c :: rest)).1 (splitSign (c :: rest)).2).or _ = _
      rw [hsplit, hreads]
      rfl

/-- The text of a number begins with a minus sign or a digit. -/
theorem Writes.head {text : String} {x : Number} (h : Writes text x) :
    ∃ c rest, text.toList = c :: rest ∧ (c = '-' ∨ c.isDigit = true) := by
  obtain ⟨negative, _, rfl, ⟨c, rest, rfl, hc⟩, -⟩ := h
  rw [String.toList_ofList]
  cases negative with
  | true => exact ⟨'-', c :: rest, rfl, Or.inl rfl⟩
  | false => exact ⟨c, rest, rfl, Or.inr hc⟩

/-- A text that writes a number has the characters of numerals only. -/
theorem Writes.isNumeralChar {text : String} {x : Number} (h : Writes text x) :
    ∀ c ∈ text.toList, IsNumeralChar c := by
  obtain ⟨negative, cs, rfl, -, hreads⟩ := h
  rw [String.toList_ofList]
  intro c hc
  rcases List.mem_append.mp hc with hc | hc
  · cases negative with
    | true =>
        rw [List.mem_singleton.mp hc]
        exact Or.inr (by decide)
    | false => exact nomatch hc
  · exact isNumeralChar_of_unsigned? hreads c hc

-- ── Layouts ─────────────────────────────────────────────────────────────────

/-- Zeros cut off at the end change no number. -/
theorem ofDecimal_trim (negative : Bool) (d : Decimal) :
    ofDecimal negative d.trim.digits d.trim.exponent = ofDecimal negative d.digits d.exponent := by
  suffices h : ∀ digits exponent,
      ofDecimal negative (Decimal.trim.go digits exponent).digits
        (Decimal.trim.go digits exponent).exponent = ofDecimal negative digits exponent from
    h d.digits d.exponent
  intro digits exponent
  induction digits, exponent using Decimal.trim.go.induct with
  | case1 digits exponent h ih =>
      rw [Decimal.trim.go, dif_pos h, ih, ← ofDecimal_mul_ten]
      congr 1
      omega
  | case2 digits exponent h => rw [Decimal.trim.go, dif_neg h]

/-- The positional layout, with a point in a whole number too. -/
theorem spells_positionalText (negative : Bool) (d : Decimal) :
    Spells negative (d.positionalText ".0").toList (ofDecimal negative d.digits d.exponent) := by
  have hds := all_isDigit_toDigits d.digits
  have hlen : (toString d.digits).length = (Nat.toDigits 10 d.digits).length := by
    rw [← String.length_toList, toList_toString]
  simp only [Decimal.positionalText, hlen, toList_toString]
  split
  · rename_i hplaces
    have hread := spells_point negative
      (Nat.toDigits 10 d.digits ++ List.replicate d.exponent.toNat '0') ['0']
      (List.append_ne_nil_of_left_ne_nil Nat.toDigits_ne_nil _)
      (by
        intro c hc
        rcases List.mem_append.mp hc with h | h
        · exact hds c h
        · exact all_isDigit_zeros _ c h)
      (all_isDigit_zeros 1) Ending.none
    have hvalue : digitsValue (Nat.toDigits 10 d.digits ++ List.replicate d.exponent.toNat '0'
        ++ ['0']) = d.digits * 10 ^ (d.exponent.toNat + 1) := by
      have hzero : digitsValue ['0'] = 0 := digitsValue_zeros 1
      simp [hzero, Nat.pow_succ]
    have hexp : (0 : Int) - (['0'] : List Char).length + ((d.exponent.toNat + 1 : Nat) : Int)
        = d.exponent := by
      simp only [List.length_singleton]
      omega
    rw [hvalue, ofDecimal_mul_pow, hexp] at hread
    convert hread using 1
    simp [Decimal.zeros]
  · rename_i hplaces
    split
    · rename_i hshort
      have hread := spells_point negative
        ((Nat.toDigits 10 d.digits).take
          ((Nat.toDigits 10 d.digits).length - (-d.exponent).toNat))
        ((Nat.toDigits 10 d.digits).drop
          ((Nat.toDigits 10 d.digits).length - (-d.exponent).toNat))
        (by
          intro hnil
          have := congrArg List.length hnil
          rw [List.length_take, List.length_nil] at this
          omega)
        (fun c hc => hds c (List.mem_of_mem_take hc)) (fun c hc => hds c (List.mem_of_mem_drop hc))
        Ending.none
      rw [List.take_append_drop, digitsValue_toDigits, List.length_drop] at hread
      convert hread using 2
      · simp
      · omega
    · rename_i hlong
      have hread := spells_point negative ['0']
        (List.replicate ((-d.exponent).toNat - (Nat.toDigits 10 d.digits).length) '0'
          ++ Nat.toDigits 10 d.digits)
        (List.cons_ne_nil _ _) (all_isDigit_zeros 1)
        (by
          intro c hc
          rcases List.mem_append.mp hc with h | h
          · exact all_isDigit_zeros _ c h
          · exact hds c h)
        Ending.none
      have hvalue : digitsValue (['0'] ++ (List.replicate ((-d.exponent).toNat
          - (Nat.toDigits 10 d.digits).length) '0' ++ Nat.toDigits 10 d.digits)) = d.digits := by
        have hzero : digitsValue ['0'] = 0 := digitsValue_zeros 1
        rw [digitsValue_append, digitsValue_append, hzero]
        simp
      rw [hvalue] at hread
      convert hread using 2
      · simp [Decimal.zeros]
      · simp only [List.length_append, List.length_replicate]
        omega

/-- The scientific layout. -/
theorem spells_scientificText (negative : Bool) (d : Decimal) :
    Spells negative d.scientificText.toList (ofDecimal negative d.digits d.exponent) := by
  have hds := all_isDigit_toDigits d.digits
  have hlen : (toString d.digits).length = (Nat.toDigits 10 d.digits).length := by
    rw [← String.length_toList, toList_toString]
  obtain ⟨c, cs, hc⟩ := List.exists_cons_of_ne_nil (Nat.toDigits_ne_nil (n := d.digits) (b := 10))
  have hvalue := digitsValue_toDigits d.digits
  rw [hc] at hvalue hds hlen
  -- the exponent that is written, by its sign
  obtain ⟨ending, hending, htext⟩ : ∃ ending,
      Ending ending (d.exponent + cs.length) ∧
      ("e" ++ (if d.exponent + (toString d.digits).length - 1 < 0 then "-" else "+")
        ++ toString (d.exponent + (toString d.digits).length - 1).natAbs).toList = ending := by
    have hlead : d.exponent + ((toString d.digits).length : Int) - 1 = d.exponent + cs.length := by
      rw [hlen, List.length_cons]
      push_cast
      omega
    rw [hlead]
    by_cases hneg : d.exponent + (cs.length : Int) < 0
    · refine ⟨_, ?_, rfl⟩
      have h := Ending.minus (d.exponent + (cs.length : Int)).natAbs
      rw [show (-((d.exponent + (cs.length : Int)).natAbs : Int)) = d.exponent + cs.length by
        omega] at h
      rw [if_pos hneg]
      simpa [toList_toString] using h
    · refine ⟨_, ?_, rfl⟩
      have h := Ending.plus (d.exponent + (cs.length : Int)).natAbs
      rw [show ((d.exponent + (cs.length : Int)).natAbs : Int) = d.exponent + cs.length by
        omega] at h
      rw [if_neg hneg]
      simpa [toList_toString] using h
  have hshape : d.scientificText.toList
      = c :: ((if cs.isEmpty then [] else '.' :: cs) ++ ending) := by
    rw [← htext]
    simp only [Decimal.scientificText, String.toList_append, String.toList_ofList,
      toList_toString, hc, List.take_succ_cons, List.take_zero, List.drop_succ_cons,
      List.drop_zero]
    cases cs with
    | nil => simp
    | cons c' cs' => simp
  rw [hshape]
  cases cs with
  | nil =>
      have hread := spells_whole negative [c] (by simp) hds hending
      rw [hvalue] at hread
      convert hread using 2
      · rfl
      · exact (Int.add_zero _).symm
  | cons c' cs' =>
      have hread := spells_point negative [c] (c' :: cs') (by simp)
        (fun x hx => hds x (by simp_all)) (fun x hx => hds x (List.mem_cons_of_mem _ hx)) hending
      have hcons : digitsValue ([c] ++ c' :: cs') = d.digits := hvalue
      rw [hcons] at hread
      convert hread using 2
      · rfl
      · omega

/-- The text of a finite number writes it, in each of the forms that it may take. -/
theorem writes_finiteText {x : Number} (hx : x.isFinite = true) :
    Writes (x.finiteText documentStyle) x := by
  have hspells : Spells x.negative (if x.magnitude = 0 then "0" ++ documentStyle.wholeMark
      else (x.shortest documentStyle.tie).text documentStyle).toList x := by
    split
    · rename_i h0
      have hread := spells_point x.negative ['0'] ['0'] (List.cons_ne_nil _ _)
        (all_isDigit_zeros 1) (all_isDigit_zeros 1) Ending.none
      have hzero : ofDecimal x.negative (digitsValue (['0'] ++ ['0']))
          (0 - (['0'] : List Char).length) = x := by
        cases x
        simp_all [digitsValue, ofDecimal, ofMagnitude]
      rw [hzero] at hread
      exact hread
    · rename_i h0
      have hback := ofDecimal_shortest documentStyle.tie hx h0
      rw [← ofDecimal_trim] at hback
      generalize (x.shortest documentStyle.tie) = d at hback
      rw [Decimal.text]
      split
      · have h := spells_positionalText x.negative d.trim
        rw [hback] at h
        exact h
      · have h := spells_scientificText x.negative d.trim
        rw [hback] at h
        exact h
  refine ⟨x.negative, _, ?_, hspells⟩
  apply String.toList_injective
  rw [finiteText]
  cases x.negative <;> simp

/-- A finite number is read back from its text, its sign included. -/
theorem ofText?_finiteText {x : Number} (hx : x.isFinite = true) :
    ofText? (x.finiteText documentStyle) = some x :=
  (writes_finiteText hx).ofText?_eq

-- ── Integers ────────────────────────────────────────────────────────────────

/-- An integer is printed as its sign and its digits. -/
theorem toString_int (n : Int) :
    toString n
      = String.ofList ((if n < 0 then ['-'] else []) ++ Nat.toDigits 10 n.natAbs) := by
  apply String.toList_injective
  rw [String.toList_ofList]
  cases n with
  | ofNat m => exact toList_toString m
  | negSucc m =>
      show ("-" ++ toString (m + 1)).toList = _
      rw [String.toList_append, toList_toString, if_pos (Int.negSucc_lt_zero m)]
      simp

/-- A number that is an integer counts so many units. -/
theorem toInt?_eq_some {x : Number} {n : Int} (h : x.toInt? = some n) :
    x.isFinite = true ∧ n.natAbs < 2 ^ 53 ∧ x.units = n.natAbs * unitsPerOne ∧
      (n ≠ 0 → x.negative = decide (n < 0)) := by
  rw [toInt?] at h
  have hdiv := Nat.div_add_mod x.units unitsPerOne
  rw [Nat.mul_comm] at hdiv
  generalize x.units % unitsPerOne = r at h hdiv
  generalize x.units / unitsPerOne = m at h hdiv
  split at h
  · rename_i hcond
    simp only [Bool.and_eq_true, decide_eq_true_eq] at hcond
    obtain ⟨⟨hfin, rfl⟩, hlt⟩ := hcond
    have hn := Option.some.inj h
    have hbound : safeIntegerBound = 2 ^ 53 := by decide
    rw [hbound] at hlt
    have habs : n.natAbs = m := by
      rw [← hn]
      split <;> omega
    refine ⟨hfin, by omega, by rw [habs, ← hdiv, Nat.add_zero], ?_⟩
    intro hne
    cases hx : x.negative with
    | true =>
        rw [hx, if_pos rfl] at hn
        exact (decide_eq_true (by omega)).symm
    | false =>
        rw [hx, if_neg Bool.false_ne_true] at hn
        exact (decide_eq_false (by omega)).symm
  · exact nomatch h

/-- The number of an integer's digits. -/
theorem magnitude_ofDecimal_nat {m : Nat} (negative : Bool) (hm : m < 2 ^ 53) :
    (ofDecimal negative m 0).magnitude = magnitudeOf (m * unitsPerOne) 1 := by
  by_cases h0 : m = 0
  · rw [h0, Nat.zero_mul]
    rfl
  · have hcount : digitCount m ≤ 16 := digitCount_le h0 (by omega)
    rw [ofDecimal_eq negative h0 (by omega) (by omega), magnitude_ofUnits]
    show min (magnitudeOf (m * 10 ^ 0 * unitsPerOne) (10 ^ 0)) infiniteMagnitude = _
    rw [Nat.pow_zero, Nat.mul_one]
    exact Nat.min_eq_left (magnitudeOf_nat_lt hm).le

/-- The digits of an integer below `2 ^ 53` write the number, up to the sign of zero. -/
theorem writes_toString {x : Number} {n : Int} (h : x.toInt? = some n) :
    ∃ y, Writes (toString n) y ∧ y.rank = x.rank := by
  obtain ⟨hfin, hlt, hunits, hsign⟩ := toInt?_eq_some h
  have hspells := spells_whole (decide (n < 0)) (Nat.toDigits 10 n.natAbs) Nat.toDigits_ne_nil
    (all_isDigit_toDigits _) Ending.none
  rw [digitsValue_toDigits, List.append_nil] at hspells
  have hmag : (ofDecimal (decide (n < 0)) n.natAbs 0).magnitude = x.magnitude := by
    rw [magnitude_ofDecimal_nat _ hlt, ← hunits, magnitudeOf_units]
  have hneg := negative_ofDecimal (decide (n < 0)) n.natAbs 0
  generalize ofDecimal (decide (n < 0)) n.natAbs 0 = y at hspells hmag hneg
  refine ⟨y, ⟨_, _, ?_, hspells⟩, ?_⟩
  · rw [toString_int]
    simp
  · by_cases h0 : n = 0
    · have hzero : x.magnitude = 0 := by
        rw [← magnitudeOf_units, hunits, h0]
        simp only [Int.natAbs_zero, Nat.zero_mul]
        rfl
      simp [rank, hmag, hzero]
    · rw [rank, rank, hmag, hneg, hsign h0]

-- ── What is read ────────────────────────────────────────────────────────────

/-- A numeral that writes the number. -/
def numeral (x : Number) : String :=
  if x.isFinite then x.finiteText documentStyle
  else if x.isNaN then "nan"
  else if x.negative then "-inf" else "inf"

theorem ofText?_numeral_infinity (negative : Bool) :
    ofText? (infinity negative).numeral = some (infinity negative) := by
  cases negative <;> decide +kernel

theorem ofText?_numeral_nan : ofText? nan.numeral = some nan := by
  decide +kernel

/-- A decimal is rounded to a finite number or to infinity. -/
theorem ofDecimal_range (negative : Bool) (digits : Nat) (exponent : Int) :
    (ofDecimal negative digits exponent).isFinite = true ∨
      ofDecimal negative digits exponent = infinity negative := by
  rw [ofDecimal]
  split
  · exact isFinite_or_eq_infinity negative 0
  · split
    · exact Or.inr rfl
    · split
      · exact isFinite_or_eq_infinity negative _
      · exact isFinite_or_eq_infinity negative _

/-- What digits are read as is finite or infinite. -/
theorem unsigned?_range {negative : Bool} {cs : List Char} {x : Number}
    (h : unsigned? negative cs = some x) : x.isFinite = true ∨ x = infinity negative := by
  simp only [unsigned?, Option.ite_none_left_eq_some, Option.map_eq_some_iff] at h
  obtain ⟨-, e, -, rfl⟩ := h
  exact ofDecimal_range _ _ _

/-- What a word is read as is infinite or no number. -/
theorem word?_range {negative : Bool} {cs : List Char} {x : Number}
    (h : word? negative cs = some x) : x = infinity negative ∨ x = nan := by
  rw [word?] at h
  split at h
  · exact Or.inl (Option.some.inj h).symm
  · exact Or.inl (Option.some.inj h).symm
  · exact Or.inr (Option.some.inj h).symm
  · cases h

/-- Every number that is read has a numeral that writes it. -/
theorem ofText?_numeral {text : String} {x : Number} (h : ofText? text = some x) :
    ofText? x.numeral = some x := by
  rw [ofText?] at h
  rcases Option.or_eq_some_iff.mp h with h | ⟨-, h⟩
  · rcases unsigned?_range h with hfin | rfl
    · rw [numeral, if_pos hfin]
      exact ofText?_finiteText hfin
    · exact ofText?_numeral_infinity _
  · rcases word?_range h with rfl | rfl
    · exact ofText?_numeral_infinity _
    · exact ofText?_numeral_nan

/-- A count that is read is within the range of counts. -/
theorem le_maxCount_of_countOfText? {text : String} {n : Nat} (h : countOfText? text = some n) :
    n ≤ maxCount := by
  simp only [countOfText?, Option.ite_none_left_eq_some, Option.ite_none_right_eq_some,
    Option.some.injEq] at h
  obtain ⟨-, hle, rfl⟩ := h
  exact hle

/-- A count is read back from its digits. -/
theorem countOfText?_toString {n : Nat} (h : n ≤ maxCount) :
    countOfText? (toString n) = some n := by
  have hdigits := all_isDigit_toDigits n
  have hne : (Nat.toDigits 10 n).isEmpty = false :=
    List.isEmpty_eq_false_iff.mpr Nat.toDigits_ne_nil
  unfold countOfText?
  extract_lets digits
  have hcut : digits = Nat.toDigits 10 n := by
    dsimp only [digits]
    rw [toList_toString]
    split
    · rename_i cs hcs
      have hplus := hdigits '+' (by rw [hcs]; exact List.mem_cons_self)
      cases hplus
    · rfl
  rw [hcut, hne, List.all_eq_true.mpr hdigits, digitsValue_toDigits, if_pos h]
  rfl

end DocQuery.Number
