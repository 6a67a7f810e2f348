import DocQuery.Number.Rounding

/-!
# Decimals — the fewest digits that read back

The decimal of a number has as few digits as any decimal that rounds to it, and is the
nearest of those. With `n` digits only the two neighbours of the number on the decimal
grid can be it, so both are tried for one digit, then two, and so on; seventeen always
suffice. How a tie between the two goes, and where positional notation ends, is a matter
of style and given by a record.
-/

namespace DocQuery

/-- Which of two equally near decimals is written. -/
inductive Tie where
  | toEven
  | upward
  deriving DecidableEq

/-- The decimal `digits * 10 ^ exponent`. -/
structure Decimal where
  digits : Nat
  exponent : Int
  deriving DecidableEq

namespace Number

-- ── The decimal grid ────────────────────────────────────────────────────────

/-- The power of ten of the leading digit of `num / den`. -/
def leadingExponent (num den : Nat) : Int :=
  if den ≤ num then digitCount (num / den) - 1 else -(digitCount ((den - 1) / num) : Int)

/-- The last point of the grid of multiples of `10 ^ k` that is not above `num / den`, and
    the order of twice the distance to it and the width of the grid. -/
def gridBelow (num den : Nat) (k : Int) : Nat × Ordering :=
  let n := num * Nat.pow 10 (-k).toNat
  let d := den * Nat.pow 10 k.toNat
  (n / d, compare (2 * (n % d)) d)

/-- The decimal reads back as the number. -/
def readsBack (x : Number) (d : Decimal) : Bool :=
  (ofDecimal x.negative d.digits d.exponent).magnitude == x.magnitude

/-- The nearer of the two neighbours on the grid of multiples of `10 ^ k` that reads back, if
    one does. The grid says which neighbour is below, and where the middle is. -/
def neighbour? (x : Number) (tie : Tie) (k : Int) (below : Nat) (half : Ordering) :
    Option Decimal :=
  let low : Decimal := ⟨below, k⟩
  let high : Decimal := ⟨below + 1, k⟩
  match x.readsBack low, x.readsBack high with
  | true, true =>
    match half with
    | .lt => some low
    | .gt => some high
    | .eq => match tie with
      | .upward => some high
      | .toEven => some (if below % 2 = 0 then low else high)
  | true, false => some low
  | false, true => some high
  | false, false => none

/-- The nearest decimal with a number of digits that reads back, if there is one. -/
def withDigits? (tie : Tie) (x : Number) (count : Nat) : Option Decimal :=
  let k := leadingExponent x.units unitsPerOne - count + 1
  let grid := gridBelow x.units unitsPerOne k
  x.neighbour? tie k grid.1 grid.2

/-- The decimal of a finite number other than zero, in the fewest digits. -/
def shortest (tie : Tie) (x : Number) : Decimal :=
  ((List.range 17).findSome? fun i => x.withDigits? tie (i + 1)).getD ⟨x.units, 0⟩

end Number

-- ── Notation ────────────────────────────────────────────────────────────────

/-- How decimals are laid out: the tie, the leading exponents that are written
    positionally, and what follows a whole number. -/
structure DecimalStyle where
  tie : Tie
  positional : Int → Bool
  wholeMark : String

namespace Decimal

/-- The decimal without trailing zeros in its digits. -/
def trim (d : Decimal) : Decimal :=
  go d.digits d.exponent
where
  go (digits : Nat) (exponent : Int) : Decimal :=
    if _h : digits ≠ 0 ∧ digits % 10 = 0 then go (digits / 10) (exponent + 1)
    else ⟨digits, exponent⟩
  termination_by digits
  decreasing_by omega

/-- So many zeros. -/
def zeros (n : Nat) : String :=
  String.ofList (List.replicate n '0')

/-- The decimal without an exponent; `wholeMark` follows a whole number. -/
def positionalText (d : Decimal) (wholeMark : String) : String :=
  let text := toString d.digits
  let places := (-d.exponent).toNat
  if places = 0 then text ++ zeros d.exponent.toNat ++ wholeMark
  else if places < text.length then
    let cs := text.toList
    String.ofList (cs.take (cs.length - places)) ++ "."
      ++ String.ofList (cs.drop (cs.length - places))
  else "0." ++ zeros (places - text.length) ++ text

/-- The decimal with one digit before the point and an exponent with its sign. -/
def scientificText (d : Decimal) : String :=
  let text := toString d.digits
  let leading := d.exponent + text.length - 1
  let fraction := String.ofList (text.toList.drop 1)
  String.ofList (text.toList.take 1) ++ (if fraction.isEmpty then "" else "." ++ fraction)
    ++ "e" ++ (if leading < 0 then "-" else "+") ++ toString leading.natAbs

/-- The decimal in a style. -/
def text (d : Decimal) (style : DecimalStyle) : String :=
  let d := d.trim
  if style.positional (d.exponent + (toString d.digits).length - 1) then
    d.positionalText style.wholeMark
  else d.scientificText

end Decimal

namespace Number

/-- A finite number in a style, with its sign. -/
def finiteText (style : DecimalStyle) (x : Number) : String :=
  (if x.negative then "-" else "")
    ++ (if x.magnitude = 0 then "0" ++ style.wholeMark else (x.shortest style.tie).text style)

/-- The style of documents: positional from `0.00001` up to sixteen digits before the
    point, with a point in every number; a tie goes to the even digit. -/
def documentStyle : DecimalStyle :=
  ⟨.toEven, fun e => decide (-5 ≤ e) && decide (e < 16), ".0"⟩

/-- The style of plain display: never an exponent, no point in a whole number; a tie goes
    up. -/
def displayStyle : DecimalStyle :=
  ⟨.upward, fun _ => true, ""⟩

/-- A number for display. The integers below `2 ^ 53` are written as such, also `-0`. -/
def display (x : Number) : String :=
  match x.toInt? with
  | some n => toString n
  | none =>
    if x.isNaN then "NaN"
    else if x.isFinite then x.finiteText displayStyle
    else if x.negative then "-inf" else "inf"

end Number

end DocQuery
