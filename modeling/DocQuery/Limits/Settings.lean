import DocQuery.Document.Basic
import DocQuery.Limits.Basic
import DocQuery.Toml.Reader

/-!
# Limits from settings

Limits are read from an object that may name any of the four settings, from a list of them
in order, or from a TOML text. What is left out keeps its standard value and what is unknown
is ignored, but a setting of the wrong type is refused.
-/

namespace DocQuery.Limits

/-- The items of a list of texts. -/
def texts? (d : Document) : Option (List String) :=
  d.items?.bind fun items => items.mapM Document.text?

/-- A setting that may be left out. -/
def setting {α : Type} (read : Document → Option α) (standard : α) :
    Option Document → Option α
  | none => some standard
  | some d => read d

/-- The limits of four settings, each of which may be left out. -/
def ofSettings? (rows limit require exempt : Option Document) : Option Limits := do
  let maxRows ← setting Document.count? standard.maxRows rows
  let maxLimit ← setting Document.count? standard.maxLimit limit
  let requireLimit ← setting Document.boolean? standard.requireLimit require
  let exemptTables ← setting texts? standard.exemptTables exempt
  some { maxRows, maxLimit, requireLimit, exemptTables }

/-- The limits that a document writes. -/
def ofDocument? : Document → Option Limits
  | .list items =>
    if 4 < items.length then none else ofSettings? items[0]? items[1]? items[2]? items[3]?
  | .object fields =>
    let field := (Document.object fields).field?
    ofSettings? (field "max_rows") (field "max_limit") (field "require_limit")
      (field "exempt_tables")
  | _ => none

/-- The limits that a TOML text writes. -/
def ofToml? (text : String) : Option Limits :=
  (Toml.ofText? text).bind ofDocument?

end DocQuery.Limits
