/-!
# Numbers — IEEE binary64 by sign and magnitude

A number is held by the two parts of its bit pattern: the sign and the 63 bits below it.
Read as a natural number those bits order the numbers of one sign, so comparison is one
comparison of integers (`rank`). Every finite number is a whole multiple of `2 ^ -1074`;
`units` counts them, and all arithmetic is exact arithmetic on that count.

No machine float takes part, so every operation computes in the logic.
-/

namespace DocQuery

/-- A binary64 number: its sign, and the magnitude bits below the sign, which make up a
    natural number below `2 ^ 63`. -/
structure Number where
  negative : Bool
  magnitude : Nat
  magnitude_lt : magnitude < 0x8000000000000000
  deriving DecidableEq

namespace Number

-- ── Magnitudes ──────────────────────────────────────────────────────────────

/-- The weight of the leading bit of a significand, `2 ^ 52`. -/
def leadingBit : Nat := 0x10000000000000

/-- The magnitude of infinity; the ones above it are not numbers. -/
def infiniteMagnitude : Nat := 2047 * leadingBit

/-- The number with a sign and a magnitude, infinite if the magnitude is too large. -/
def ofMagnitude (negative : Bool) (magnitude : Nat) : Number :=
  ⟨negative, min magnitude infiniteMagnitude, by
    have : infiniteMagnitude < 0x8000000000000000 := by decide
    omega⟩

/-- Zero without a sign. -/
def zero : Number :=
  ⟨false, 0, by decide⟩

/-- Infinity of either sign. -/
def infinity (negative : Bool) : Number :=
  ofMagnitude negative infiniteMagnitude

/-- Not a number. -/
def nan : Number :=
  ⟨false, infiniteMagnitude + leadingBit / 2, by decide⟩

/-- Not a number. -/
def isNaN (x : Number) : Bool :=
  infiniteMagnitude < x.magnitude

/-- Neither infinite nor NaN. -/
def isFinite (x : Number) : Bool :=
  x.magnitude < infiniteMagnitude

-- ── Order ───────────────────────────────────────────────────────────────────

/-- The place in the order of all numbers but NaN. Both zeros have rank zero. -/
def rank (x : Number) : Int :=
  if x.negative then -(x.magnitude : Int) else x.magnitude

/-- The order of two numbers; NaN has no place in it. -/
def compare? (x y : Number) : Option Ordering :=
  if x.isNaN || y.isNaN then none else some (compare x.rank y.rank)

/-- Numeric equality: the two zeros are equal and NaN equals nothing. -/
def equal (x y : Number) : Bool :=
  x.compare? y == some .eq

/-- The number without its sign. -/
def abs (x : Number) : Number :=
  ⟨false, x.magnitude, x.magnitude_lt⟩

-- ── Exact value ─────────────────────────────────────────────────────────────

/-- The binary exponent, counted from the smallest one. -/
def scale (x : Number) : Nat :=
  x.magnitude / leadingBit - 1

/-- The significand: below twice the leading bit, and with that bit unless the scale is
    least. -/
def significand (x : Number) : Nat :=
  x.magnitude - x.scale * leadingBit

/-- The distance of a finite number from zero, in units of `2 ^ -1074`. -/
def units (x : Number) : Nat :=
  x.significand * Nat.pow 2 x.scale

/-- How many units make up one. -/
def unitsPerOne : Nat := Nat.pow 2 1074

/-- The integers below this bound, `2 ^ 53`, are exact, and written as integers. -/
def safeIntegerBound : Nat := 2 * leadingBit

/-- The integer that a number is, if it is one and its distance from zero is below
    `2 ^ 53`. -/
def toInt? (x : Number) : Option Int :=
  if x.isFinite && x.units % unitsPerOne = 0 && x.units / unitsPerOne < safeIntegerBound then
    let n : Int := (x.units / unitsPerOne : Nat)
    some (if x.negative then -n else n)
  else none

end Number

end DocQuery
