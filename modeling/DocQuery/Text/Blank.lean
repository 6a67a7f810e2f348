import DocQuery.Text.Span

/-!
# Blanks — white space between words

The property *white space* of the Unicode character database: twenty-five code points in
ten spans. It is wider than `Char.isWhitespace`, which knows four of them.
-/

namespace DocQuery.Text

/-- The code points with the property *white space*. -/
def blankSpans : List Span :=
  [⟨0x9, 0xd⟩, ⟨0x20, 0x20⟩, ⟨0x85, 0x85⟩, ⟨0xa0, 0xa0⟩, ⟨0x1680, 0x1680⟩, ⟨0x2000, 0x200a⟩,
   ⟨0x2028, 0x2029⟩, ⟨0x202f, 0x202f⟩, ⟨0x205f, 0x205f⟩, ⟨0x3000, 0x3000⟩]

/-- White space of any script. -/
def isBlank (c : Char) : Bool :=
  Span.anyCovers blankSpans c.toNat

end DocQuery.Text
