import DocQuery.Number.Arithmetic
import DocQuery.Number.Numeral
import DocQuery.Document.Basic

/-!
# Numbers in documents — one rounding for the digits, one for the power of ten

An integer that fits sixty-four bits stays an integer. Any other numeral is read in two
steps: its digits are taken up as long as they fit sixty-four bits, and the power of ten
is then applied by a multiplication or division. A long numeral may so land beside the
nearest number, and one whose value is infinite is no number at all.
-/

namespace DocQuery.Document

/-- Digits taken up so far, with the power of ten they stand before. -/
structure Significand where
  digits : Nat
  exponent : Int
  full : Bool

namespace Significand

/-- A digit before the point. Once one does not fit, it and all after it only count. -/
def pushWhole (s : Significand) (digit : Nat) : Significand :=
  if s.full || Number.maxCount < s.digits * 10 + digit then
    { s with exponent := s.exponent + 1, full := true }
  else { s with digits := s.digits * 10 + digit }

/-- A digit after the point. Once one does not fit, it and all after it are dropped. -/
def pushFraction (s : Significand) (digit : Nat) : Significand :=
  if s.full || Number.maxCount < s.digits * 10 + digit then { s with full := true }
  else { s with digits := s.digits * 10 + digit, exponent := s.exponent - 1 }

/-- The digits before and after the point. -/
def ofDigits (whole fraction : List Nat) : Significand :=
  let s := whole.foldl pushWhole ⟨0, 0, false⟩
  fraction.foldl pushFraction { s with full := false }

end Significand

/-- The largest power of ten that is used in one step. -/
def maxTenPower : Nat := 308

/-- Divide by a power of ten, at most `10 ^ 308` at a time. -/
def divideByTens (x : Number) (e : Nat) : Number :=
  if e ≤ maxTenPower then x.div (.ofDecimal false 1 e)
  else if x.magnitude = 0 then x
  else divideByTens (x.div (.ofDecimal false 1 maxTenPower)) (e - maxTenPower)
termination_by e
decreasing_by simp only [maxTenPower] at *; omega

/-- The number of digits and a power of ten, unless it is infinite. -/
def scaled? (negative : Bool) (digits : Nat) (exponent : Int) : Option Number :=
  let x := Number.ofNat digits
  let result :=
    if exponent < 0 then divideByTens x exponent.natAbs
    else if exponent.natAbs ≤ maxTenPower then x.mul (.ofDecimal false 1 exponent)
    else if digits = 0 then x
    else .infinity false
  if result.isFinite then some { result with negative } else none

/-- What a numeral writes: its sign, its digits before the point, the digits after it and
    the exponent, the last two `none` if they are not written. -/
def ofNumeral? (negative : Bool) (whole : List Nat) (fraction : Option (List Nat))
    (exponent : Option Int) : Option Document :=
  let n := whole.foldl (fun n d => n * 10 + d) 0
  if fraction.isNone && exponent.isNone && !negative && n ≤ Number.maxCount then
    some (.integer n)
  else if fraction.isNone && exponent.isNone && negative && 0 < n
      && n ≤ 0x8000000000000000 then
    some (.integer (-n))
  else
    let s := Significand.ofDigits whole (fraction.getD [])
    (scaled? negative s.digits (s.exponent + exponent.getD 0)).map .decimal

end DocQuery.Document
