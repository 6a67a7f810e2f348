import DocQuery.Text.CaseTable
import DocQuery.Text.Cased

/-!
# Case — upper and lower case of a text

The full case maps, independent of language: a letter may widen to several (`ß` becomes
`SS`), and a capital sigma at the end of a word becomes the final one. Below U+0080 both
maps are the ASCII ones.
-/

namespace DocQuery.Text

-- ── Upper case ──────────────────────────────────────────────────────────────

/-- The upper case of a letter, one or more characters. -/
def upperChar (c : Char) : List Char :=
  if c.toNat < 0x80 then [c.toUpper]
  else match widening.lookup c.toNat with
    | some wide => wide.map Char.ofNat
    | none => match upperRuns.findSome? (·.moved? c.toNat) with
      | some n => [Char.ofNat n]
      | none => [c]

/-- The upper case of a text, letter by letter. -/
def upper (s : String) : String :=
  String.ofList (s.toList.flatMap upperChar)

-- ── Lower case ──────────────────────────────────────────────────────────────

/-- The lower case of a letter on its own. Only the dotted capital I widens. -/
def lowerChar (c : Char) : List Char :=
  if c.toNat < 0x80 then [c.toLower]
  else if c.toNat = 0x130 then ['i', Char.ofNat 0x307]
  else match lowerRuns.findSome? (·.moved? c.toNat) with
    | some n => [Char.ofNat n]
    | none => [c]

/-- Looked at from a letter outwards, the first sign that is not ignorable has case. -/
def meetsCased : List Char → Bool
  | [] => false
  | c :: cs => if isIgnorable c then meetsCased cs else isCased c

/-- The lower case of a text whose letters before it, the nearest first, are `before`. A
    capital sigma is final when a cased letter precedes it and none follows. -/
def lowerAfter (before : List Char) : List Char → List Char
  | [] => []
  | c :: cs =>
    let small := if c = 'Σ' then
        (if meetsCased before && !meetsCased cs then ['ς'] else ['σ'])
      else lowerChar c
    small ++ lowerAfter (c :: before) cs

/-- The lower case of a text. -/
def lower (s : String) : String :=
  String.ofList (lowerAfter [] s.toList)

end DocQuery.Text
