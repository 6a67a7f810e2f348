import DocQuery.Number.Rounding

/-!
# Arithmetic — sum, product and quotient, each rounded once

The operations take the exact result over units and round it to the nearest number.
Infinities and NaN follow IEEE 754.
-/

namespace DocQuery.Number

/-- The signed count of units of a finite number. -/
def signedUnits (x : Number) : Int :=
  if x.negative then -(x.units : Int) else x.units

/-- The sum. Opposite infinities have none; a zero sum is negative only if both terms
    are. -/
def add (x y : Number) : Number :=
  if x.isNaN || y.isNaN then nan
  else if x.isFinite && y.isFinite then
    let sum := x.signedUnits + y.signedUnits
    let negative := if sum = 0 then x.negative && y.negative else decide (sum < 0)
    ofUnits negative sum.natAbs 1
  else if x.isFinite then y
  else if y.isFinite || x.negative == y.negative then x
  else nan

/-- The product. Zero times infinity has none. -/
def mul (x y : Number) : Number :=
  let negative := x.negative != y.negative
  if x.isNaN || y.isNaN then nan
  else if x.isFinite && y.isFinite then ofUnits negative (x.units * y.units) unitsPerOne
  else if x.magnitude = 0 || y.magnitude = 0 then nan
  else infinity negative

/-- The quotient. Zero by zero and infinity by infinity have none. -/
def div (x y : Number) : Number :=
  let negative := x.negative != y.negative
  if x.isNaN || y.isNaN then nan
  else if x.isFinite && y.isFinite then
    if y.magnitude = 0 then (if x.magnitude = 0 then nan else infinity negative)
    else ofUnits negative (x.units * unitsPerOne) y.units
  else if x.isFinite then ofMagnitude negative 0
  else if y.isFinite then infinity negative
  else nan

/-- The sum of a list, from left to right. -/
def sum (xs : List Number) : Number :=
  xs.foldl add zero

end DocQuery.Number
