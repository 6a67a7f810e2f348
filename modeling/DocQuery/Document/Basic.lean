import DocQuery.Number.Basic

/-!
# Documents — JSON values as they are stored and exchanged

A document keeps whether a number was written as an integer, because its text does. An
object's fields are in the order of their names by code point, one field for each name.
-/

namespace DocQuery

/-- A JSON value. -/
inductive Document where
  | null
  | boolean (b : Bool)
  | integer (n : Int)
  | decimal (x : Number)
  | text (s : String)
  | list (items : List Document)
  | object (fields : List (String × Document))

namespace Document

instance : Inhabited Document :=
  ⟨.null⟩

/-- Put a field in its place among fields in order; an equal name is replaced. -/
def insertField (name : String) (d : Document) :
    List (String × Document) → List (String × Document)
  | [] => [(name, d)]
  | (k, v) :: rest =>
    match compare name k with
    | .lt => (name, d) :: (k, v) :: rest
    | .eq => (name, d) :: rest
    | .gt => (k, v) :: insertField name d rest

/-- The object with the fields, a later one winning over an earlier one of its name. -/
def ofFields (fields : List (String × Document)) : Document :=
  .object (fields.foldl (fun acc f => insertField f.1 f.2 acc) [])

/-- The field of an object. -/
def field? (d : Document) (name : String) : Option Document :=
  match d with
  | .object fields => (fields.find? (·.1 == name)).map Prod.snd
  | _ => none

/-- The items of a list. -/
def items? : Document → Option (List Document)
  | .list items => some items
  | _ => none

/-- The text of a text. -/
def text? : Document → Option String
  | .text s => some s
  | _ => none

/-- The truth value of a truth value. -/
def boolean? : Document → Option Bool
  | .boolean b => some b
  | _ => none

/-- The count of an integer that is one. -/
def count? : Document → Option Nat
  | .integer (.ofNat n) => some n
  | _ => none

end Document

end DocQuery
