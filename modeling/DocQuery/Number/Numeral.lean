import DocQuery.Number.Rounding

/-!
# Numerals — reading a number from text

A numeral is an optional sign, digits with at most one point among or around them, and an
optional exponent; at least one digit is needed before the exponent. The words `inf`,
`infinity` and `nan` in any case are numerals too. The number read is the nearest one.

A count is an optional plus sign and digits, and fits sixty-four bits.
-/

namespace DocQuery.Number

/-- The digits at the front and what follows them. -/
def spanDigits (cs : List Char) : List Char × List Char :=
  cs.span Char.isDigit

/-- The natural number that a list of digits writes. -/
def digitsValue (ds : List Char) : Nat :=
  ds.foldl (fun n c => n * 10 + (c.toNat - '0'.toNat)) 0

/-- Splits off a sign; `true` is minus. -/
def splitSign : List Char → Bool × List Char
  | '-' :: cs => (true, cs)
  | '+' :: cs => (false, cs)
  | cs => (false, cs)

/-- The exponent of a numeral: none at the end of the text, else `e`, a sign and digits up
    to the end. -/
def exponent? : List Char → Option Int
  | [] => some 0
  | c :: cs =>
    if c = 'e' ∨ c = 'E' then
      let (negative, digits) := splitSign cs
      if digits.isEmpty || !digits.all Char.isDigit then none
      else some (if negative then -(digitsValue digits : Int) else digitsValue digits)
    else none

/-- The number of a numeral without its sign. -/
def unsigned? (negative : Bool) (cs : List Char) : Option Number :=
  let (whole, rest) := spanDigits cs
  let (fraction, rest) := match rest with
    | '.' :: r => spanDigits r
    | _ => ([], rest)
  if whole.isEmpty && fraction.isEmpty then none
  else (exponent? rest).map fun e =>
    ofDecimal negative (digitsValue (whole ++ fraction)) (e - fraction.length)

/-- The number of one of the words for infinity and NaN. -/
def word? (negative : Bool) (cs : List Char) : Option Number :=
  match String.ofList (cs.map Char.toLower) with
  | "inf" | "infinity" => some (infinity negative)
  | "nan" => some nan
  | _ => none

/-- The number that a text writes. -/
def ofText? (s : String) : Option Number :=
  let (negative, cs) := splitSign s.toList
  (unsigned? negative cs).or (word? negative cs)

/-- The largest count that sixty-four bits hold. -/
def maxCount : Nat := 0xffffffffffffffff

/-- The count that a text writes. -/
def countOfText? (s : String) : Option Nat :=
  let digits := match s.toList with
    | '+' :: cs => cs
    | cs => cs
  if digits.isEmpty || !digits.all Char.isDigit then none
  else if digitsValue digits ≤ maxCount then some (digitsValue digits) else none

end DocQuery.Number
