import DocQuery.Document.Basic

/-!
# TOML tables — what has been defined so far

A file builds its tables step by step, and a table must not be defined twice. So a table
remembers how it came to be: by a header of its own, only as part of a longer header, or by
a dotted key. Values in braces and brackets are closed, and nothing is added to them.
-/

namespace DocQuery.Toml

/-- What a key stands for: a closed value, a table, or a list of tables that headers in
    double brackets add to. A table that no header names yet is implicit. -/
inductive Node where
  | closed (d : Document)
  | table (isImplicit isDotted : Bool) (entries : List (String × Node))
  | tables (items : List (List (String × Node)))

/-- The keys of a table with what they stand for. -/
abbrev Entries := List (String × Node)

namespace Entries

/-- What a key stands for. -/
def find? (key : String) : Entries → Option Node
  | [] => none
  | (k, n) :: rest => if k = key then some n else find? key rest

/-- The entries with another meaning of a key. -/
def replace (key : String) (node : Node) : Entries → Entries
  | [] => [(key, node)]
  | (k, n) :: rest => if k = key then (k, node) :: rest else (k, n) :: replace key node rest

/-- Changes the table at the end of a path, making the tables on the way that are missing.
    The change is told whether the table came by a dotted key. A dotted key does not go
    through a table that has a header. -/
def change? (byDots : Bool) (change : Bool → Entries → Option Entries) :
    List String → Bool → Entries → Option Entries
  | [], isDotted, entries => change isDotted entries
  | key :: path, _, entries =>
    match find? key entries with
    | none =>
      (change? byDots change path byDots []).map fun es =>
        replace key (.table true byDots es) entries
    | some (.closed _) => none
    | some (.tables items) =>
      match items.getLast? with
      | none => none
      | some last => (change? byDots change path false last).map fun es =>
        replace key (.tables (items.dropLast ++ [es])) entries
    | some (.table isImplicit isDotted es) =>
      if byDots && !isImplicit then none
      else (change? byDots change path isDotted es).map fun es =>
        replace key (.table isImplicit isDotted es) entries

/-- Splits the last key off a path. -/
def splitLast? (path : List String) : Option (List String × String) :=
  path.getLast?.map fun key => (path.dropLast, key)

/-- Opens the table of a header. It may be there only as part of longer headers. -/
def openTable? (path : List String) (root : Entries) : Option Entries := do
  let (parents, key) ← splitLast? path
  change? false (fun _ entries =>
    match find? key entries with
    | none => some (replace key (.table false false []) entries)
    | some (.table true false es) => some (replace key (.table false false es) entries)
    | some _ => none) parents false root

/-- Opens one more table of a header in double brackets. -/
def openItem? (path : List String) (root : Entries) : Option Entries := do
  let (parents, key) ← splitLast? path
  change? false (fun _ entries =>
    match find? key entries with
    | none => some (replace key (.tables [[]]) entries)
    | some (.tables items) => some (replace key (.tables (items ++ [[]])) entries)
    | some _ => none) parents false root

/-- Adds a key and its value to a table. A dotted key reaches only tables that dotted keys
    made. -/
def add? (path : List String) (value : Document) (entries : Entries) : Option Entries := do
  let (parents, key) ← splitLast? path
  change? true (fun isDotted entries =>
    if isDotted == parents.isEmpty || (find? key entries).isSome then none
    else some (replace key (.closed value) entries)) parents false entries

/-- Adds a key and its value to the table of the last header. -/
def addUnder? (header path : List String) (value : Document) (root : Entries) :
    Option Entries :=
  change? false (fun _ entries => add? path value entries) header false root

end Entries

mutual

/-- What a key stands for, as a document. -/
def Node.toDocument : Node → Document
  | .closed d => d
  | .table _ _ entries => .ofFields (Entries.toFields entries)
  | .tables items => .list (Entries.toObjects items)

/-- The fields of a table. -/
def Entries.toFields : List (String × Node) → List (String × Document)
  | [] => []
  | (key, node) :: rest => (key, node.toDocument) :: Entries.toFields rest

/-- The objects of a list of tables. -/
def Entries.toObjects : List (List (String × Node)) → List Document
  | [] => []
  | entries :: rest => .ofFields (Entries.toFields entries) :: Entries.toObjects rest

end

end DocQuery.Toml
