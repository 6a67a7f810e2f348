import DocQuery.Text.Case
import DocQuery.Value.Basic

/-!
# Comparing values — equality, order and collation

Three comparisons are kept apart:

* `equal` — structural equality, in which null equals null; what `=` tests;
* `compare?` — the order of two values of one type, null having none; what `<` and its
  kin test;
* `collate` — the order in which rows are sorted, null last: texts without regard to
  case first, the lower case before the upper on a tie.
-/

namespace DocQuery.Value

/-- Both are null, or both are equal values of one type. -/
def equal : Value → Value → Bool
  | .null, .null => true
  | .boolean a, .boolean b => a == b
  | .number x, .number y => x.equal y
  | .text s, .text t => s == t
  | _, _ => false

/-- The order of two truth values: false first. -/
def compareBool (a b : Bool) : Ordering :=
  compare a.toNat b.toNat

/-- The order of two values of one type other than null. -/
def compare? : Value → Value → Option Ordering
  | .number x, .number y => x.compare? y
  | .text s, .text t => some (compare s t)
  | .boolean a, .boolean b => some (compareBool a b)
  | _, _ => none

/-- The order of texts without regard to case; of two that differ only in case, the one in
    lower case comes first. -/
def collateText (s t : String) : Ordering :=
  (compare (Text.lower s) (Text.lower t)).then (compare t s)

/-- The sorting order of values other than null. Values of different types are ordered by
    their display. -/
def collateValue : Value → Value → Ordering
  | .number x, .number y => (x.compare? y).getD .eq
  | .text s, .text t => collateText s t
  | .boolean a, .boolean b => compareBool a b
  | v, w => compare v.display w.display

/-- The sorting order, null after everything else. -/
def collate (v w : Value) : Ordering :=
  match v.isNull, w.isNull with
  | true, true => .eq
  | true, false => .gt
  | false, true => .lt
  | false, false => collateValue v w

end DocQuery.Value
