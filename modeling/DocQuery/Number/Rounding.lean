import DocQuery.Number.Basic

/-!
# Rounding — the nearest number to an exact fraction

One function, `magnitudeOf`, takes a fraction of units to the magnitude of the nearest
number, the even one of two equally near. Integers and decimals are numbers through it.
-/

namespace DocQuery.Number

/-- The integer nearest to `num / den`; a half goes to the even neighbour. -/
def roundDiv (num den : Nat) : Nat :=
  let q := num / den
  let twice := 2 * (num % den)
  if twice < den then q
  else if den < twice then q + 1
  else q + q % 2

/-- The scale at which `num / den` units have a significand below `2 ^ 53`. -/
def scaleOf (num den : Nat) : Nat :=
  Nat.log2 (num / den) - 52

/-- The magnitude of the number nearest to `num / den` units. At scale `e` the magnitudes
    start at `e` leading bits, so the rounded significand is added, and a significand that
    rounds up to two of them carries into the next scale by itself. -/
def magnitudeOf (num den : Nat) : Nat :=
  let e := scaleOf num den
  e * leadingBit + roundDiv num (den * Nat.pow 2 e)

/-- The number nearest to `num / den` units of a sign. -/
def ofUnits (negative : Bool) (num den : Nat) : Number :=
  ofMagnitude negative (magnitudeOf num den)

/-- The number nearest to a natural number. -/
def ofNat (n : Nat) : Number :=
  ofUnits false (n * unitsPerOne) 1

/-- The number nearest to an integer. -/
def ofInt (n : Int) : Number :=
  ofUnits (n < 0) (n.natAbs * unitsPerOne) 1

/-- How many decimal digits a natural number takes; zero takes none. -/
def digitCount (n : Nat) : Nat :=
  if n = 0 then 0 else digitCount (n / 10) + 1

/-- The number nearest to `digits * 10 ^ exponent`. Beyond the range of all numbers the
    power of ten is not computed. -/
def ofDecimal (negative : Bool) (digits : Nat) (exponent : Int) : Number :=
  let leading := exponent + digitCount digits
  if digits = 0 ∨ leading < -330 then ofMagnitude negative 0
  else if 310 < leading then infinity negative
  else if exponent < 0 then
    ofUnits negative (digits * unitsPerOne) (Nat.pow 10 exponent.natAbs)
  else ofUnits negative (digits * Nat.pow 10 exponent.natAbs * unitsPerOne) 1

end DocQuery.Number
