import DocQuery.Document.Printer

/-!
# Values — the scalars that conditions compare

Conditions compare texts, numbers, truth values and null, so a value is one of these. A
document becomes a value by `ofDocument`: lists and objects are flattened to their compact
text. `key` is the text by which values are told apart when rows are grouped or joined.
-/

namespace DocQuery

/-- A scalar value. -/
inductive Value where
  | null
  | boolean (b : Bool)
  | number (x : Number)
  | text (s : String)
  deriving DecidableEq

namespace Value

instance : Inhabited Value :=
  ⟨.null⟩

/-- Null. -/
def isNull : Value → Bool
  | .null => true
  | _ => false

/-- The number of a number. -/
def number? : Value → Option Number
  | .number x => some x
  | _ => none

/-- The text of a text. -/
def text? : Value → Option String
  | .text s => some s
  | _ => none

/-- The name of the value's type. -/
def typeName : Value → String
  | .null => "null"
  | .boolean _ => "boolean"
  | .number _ => "number"
  | .text _ => "string"

-- ── Documents ───────────────────────────────────────────────────────────────

/-- The value of a document; a list or an object becomes its compact text. -/
def ofDocument : Document → Value
  | .null => .null
  | .boolean b => .boolean b
  | .integer n => .number (.ofInt n)
  | .decimal x => .number x
  | .text s => .text s
  | d => .text d.render

/-- The value of a scalar document; lists and objects have none. -/
def ofScalar? : Document → Option Value
  | .list _ => none
  | .object _ => none
  | d => some (ofDocument d)

/-- The document of a value: an integer below `2 ^ 53` as such, another finite number as a
    decimal, and a number that is not finite as null. -/
def toDocument : Value → Document
  | .null => .null
  | .boolean b => .boolean b
  | .number x => match x.toInt? with
    | some n => .integer n
    | none => if x.isFinite then .decimal x else .null
  | .text s => .text s

-- ── Texts ───────────────────────────────────────────────────────────────────

/-- The text by which values are told apart: the compact text of the document. -/
def key (v : Value) : String :=
  v.toDocument.render

/-- The value for display, a text without quotes. -/
def display : Value → String
  | .null => "null"
  | .boolean b => if b then "true" else "false"
  | .number x => x.display
  | .text s => s

end Value

end DocQuery
