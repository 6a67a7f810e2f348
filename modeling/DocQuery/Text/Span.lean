/-!
# Spans — sets of code points given by their stretches

A character class of the Unicode database is a list of spans, each the code points from
`first` to `last`. `anyCovers` asks whether one of them holds a code point.
-/

namespace DocQuery.Text

/-- The code points from `first` to `last`, both included. -/
structure Span where
  first : Nat
  last : Nat

namespace Span

/-- The span holds the code point. -/
def covers (s : Span) (n : Nat) : Bool :=
  s.first ≤ n && n ≤ s.last

/-- One of the spans holds the code point. -/
def anyCovers (spans : List Span) (n : Nat) : Bool :=
  spans.any (·.covers n)

end Span

end DocQuery.Text
