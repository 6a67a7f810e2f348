import DocQuery.Document.Basic
import DocQuery.Number.Decimal
import DocQuery.Text.Quoted

/-!
# Writing documents — compact JSON text

A document is written without spaces, the fields of an object in their order. A decimal
is written in the fewest digits that read back; one that is not finite is written as
`null`.
-/

namespace DocQuery.Document

mutual

/-- The compact text of a document. -/
def render : Document → String
  | .null => "null"
  | .boolean b => if b then "true" else "false"
  | .integer n => toString n
  | .decimal x => if x.isFinite then x.finiteText Number.documentStyle else "null"
  | .text s => Text.quote s
  | .list items => "[" ++ renderItems items ++ "]"
  | .object fields => "\x7b" ++ renderFields fields ++ "\x7d"

/-- The items of a list with commas between them. -/
def renderItems : List Document → String
  | [] => ""
  | [d] => render d
  | d :: ds => render d ++ "," ++ renderItems ds

/-- The fields of an object with commas between them. -/
def renderFields : List (String × Document) → String
  | [] => ""
  | [(k, d)] => Text.quote k ++ ":" ++ render d
  | (k, d) :: fs => Text.quote k ++ ":" ++ render d ++ "," ++ renderFields fs

end

end DocQuery.Document
