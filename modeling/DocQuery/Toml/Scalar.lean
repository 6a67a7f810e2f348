import DocQuery.Document.Basic
import DocQuery.Number.Numeral
import DocQuery.Toml.Text

/-!
# TOML scalars — integers, floats and moments

A scalar that is no string is a run of characters with a grammar of its own: an integer of
sixty-four bits in one of four bases, a float, a truth value, or a date and time. A moment
has no counterpart among documents, and is an object that holds its text.
-/

namespace DocQuery.Toml

-- ── Digits ──────────────────────────────────────────────────────────────────

/-- A digit of a base. -/
def isDigitOf (base : Nat) (c : Char) : Bool :=
  (Text.hexValue? c).any fun d => decide (d < base)

/-- The digits without the underscores between them: there is at least one digit, and an
    underscore has a digit on either side. -/
def digits? (base : Nat) : List Char → Option (List Char)
  | [] => none
  | [c] => if isDigitOf base c then some [c] else none
  | c :: '_' :: cs => if isDigitOf base c then (digits? base cs).map (c :: ·) else none
  | c :: cs => if isDigitOf base c then (digits? base cs).map (c :: ·) else none

/-- The value of digits of a base. -/
def valueOf (base : Nat) (ds : List Char) : Nat :=
  ds.foldl (fun n c => n * base + (Text.hexValue? c).getD 0) 0

-- ── Integers and floats ─────────────────────────────────────────────────────

/-- An integer of sixty-four bits. -/
def bounded? (n : Int) : Option Document :=
  if -0x8000000000000000 ≤ n ∧ n < 0x8000000000000000 then some (.integer n) else none

/-- Decimal digits without a leading zero. -/
def wholeDigits? (cs : List Char) : Option (List Char) :=
  match digits? 10 cs with
  | some ('0' :: _ :: _) => none
  | result => result

/-- An integer: decimal with an optional sign, or in a base that is named in front. -/
def integer? : List Char → Option Document
  | '0' :: 'x' :: cs => (digits? 16 cs).bind fun ds => bounded? (valueOf 16 ds)
  | '0' :: 'o' :: cs => (digits? 8 cs).bind fun ds => bounded? (valueOf 8 ds)
  | '0' :: 'b' :: cs => (digits? 2 cs).bind fun ds => bounded? (valueOf 2 ds)
  | cs =>
    let (negative, unsigned) := Number.splitSign cs
    (wholeDigits? unsigned).bind fun ds =>
      let n : Int := valueOf 10 ds
      bounded? (if negative then -n else n)

/-- A float in digits: a whole part, and a fraction or an exponent or both. -/
def decimal? (negative : Bool) (cs : List Char) : Option Document := do
  let (mantissa, power) := cs.span fun c => c != 'e' && c != 'E'
  let (whole, fraction) := mantissa.span fun c => c != '.'
  if fraction.isEmpty && power.isEmpty then none
  let wholeDigits ← wholeDigits? whole
  let fractionDigits ← if fraction.isEmpty then some [] else digits? 10 (fraction.drop 1)
  let exponent ←
    if power.isEmpty then some 0
    else
      let (minus, digits) := Number.splitSign (power.drop 1)
      (digits? 10 digits).map fun ds =>
        if minus then -(valueOf 10 ds : Int) else (valueOf 10 ds : Int)
  let x := Number.ofDecimal negative (valueOf 10 (wholeDigits ++ fractionDigits))
    (exponent - fractionDigits.length)
  if x = .infinity false then none else some (.decimal x)

/-- A float: digits, or one of the words for infinity and NaN. -/
def float? (cs : List Char) : Option Document :=
  let (negative, unsigned) := Number.splitSign cs
  match String.ofList unsigned with
  | "inf" => some (.decimal (.infinity negative))
  | "nan" => some (.decimal .nan)
  | _ => decimal? negative unsigned

-- ── Moments ─────────────────────────────────────────────────────────────────

/-- The number that exactly so many digits write. -/
def fixed? (count : Nat) (cs : List Char) : Option Nat :=
  if cs.length = count && cs.all Char.isDigit then some (Number.digitsValue cs) else none

/-- The days of a month. -/
def daysIn (year month : Nat) : Nat :=
  if month = 2 then
    (if year % 4 = 0 ∧ (year % 100 ≠ 0 ∨ year % 400 = 0) then 29 else 28)
  else if month = 4 ∨ month = 6 ∨ month = 9 ∨ month = 11 then 30
  else 31

/-- The text is a date. -/
def isDate (cs : List Char) : Bool :=
  cs[4]? == some '-' && cs[7]? == some '-' && cs.length == 10 &&
    match fixed? 4 (cs.take 4), fixed? 2 ((cs.drop 5).take 2), fixed? 2 (cs.drop 8) with
    | some y, some m, some d => 1 ≤ m && m ≤ 12 && 1 ≤ d && d ≤ daysIn y m
    | _, _, _ => false

/-- The text is an hour and a minute. -/
def isHourMinute (cs : List Char) : Bool :=
  cs[2]? == some ':' && cs.length == 5 &&
    match fixed? 2 (cs.take 2), fixed? 2 (cs.drop 3) with
    | some h, some m => h ≤ 23 && m ≤ 59
    | _, _ => false

/-- The text is a time of day, with or without a fraction of a second. -/
def isTime (cs : List Char) : Bool :=
  let fraction := cs.drop 8
  isHourMinute (cs.take 5) && cs[5]? == some ':'
    && (fixed? 2 ((cs.drop 6).take 2)).any (fun s => decide (s ≤ 60))
    && (fraction.isEmpty
      || (fraction.head? == some '.' && 2 ≤ fraction.length && (fraction.drop 1).all Char.isDigit))

/-- The text is a time of day with an optional offset from universal time. -/
def isTimeWithOffset (cs : List Char) : Bool :=
  let (time, offset) := cs.span fun c => c.isDigit || c == ':' || c == '.'
  isTime time && match offset with
    | [] => true
    | ['Z'] | ['z'] => true
    | sign :: rest => (sign == '+' || sign == '-') && isHourMinute rest

/-- The text is a date, a time, or both with a separator between them. -/
def isMoment (cs : List Char) : Bool :=
  isDate cs || isTime cs ||
    (isDate (cs.take 10)
      && (match cs[10]? with
        | some c => c == 'T' || c == 't' || c == ' '
        | none => false)
      && isTimeWithOffset (cs.drop 11))

-- ── Scalars ─────────────────────────────────────────────────────────────────

/-- The scalar that a run of characters writes. -/
def scalar? (cs : List Char) : Option Document :=
  match String.ofList cs with
  | "true" => some (.boolean true)
  | "false" => some (.boolean false)
  | text =>
    if isMoment cs then some (.object [("moment", .text text)])
    else (integer? cs).or (float? cs)

/-- A character that goes on with a scalar. -/
def isScalarChar (c : Char) : Bool :=
  c.isAlphanum || c == '_' || c == '+' || c == '-' || c == '.' || c == ':'

/-- Takes the scalar at the front. A date takes the time with it that a blank sets off. -/
def takeScalar? (cs : List Char) : Option (Taken Document Char cs.length) :=
  let run := cs.takeWhile isScalarChar
  let rest := cs.dropWhile isScalarChar
  let more := (rest.drop 1).takeWhile isScalarChar
  let count :=
    if isDate run && rest.head? == some ' ' && more.head?.any Char.isDigit then
      run.length + 1 + more.length
    else run.length
  if h : 0 < count ∧ count ≤ cs.length then
    (scalar? (cs.take count)).map fun d => ⟨d, cs.drop count, by
      rw [List.length_drop]; omega⟩
  else none

end DocQuery.Toml
