import DocQuery.Toml.Scalar
import DocQuery.Toml.Table

/-!
# Reading TOML

`Toml.ofText?` reads a file line by line: keys with their values, headers, comments and
empty lines. The tables come out as one document. Values nest at most `maxDepth` deep.
-/

namespace DocQuery.Toml

-- ── Values ──────────────────────────────────────────────────────────────────

/-- The text after blanks, line breaks and comments. -/
def skipLines (cs : List Char) : List Char :=
  match _h : skipBreaks cs with
  | '#' :: rest => skipLines (rest.dropWhile isPlain)
  | rest => rest
termination_by cs.length
decreasing_by
  have h₁ := length_skipBreaks_le cs
  have h₂ : (rest.dropWhile isPlain).length ≤ rest.length :=
    (List.dropWhile_suffix isPlain).length_le
  rw [_h, List.length_cons] at h₁
  omega

theorem length_skipLines_le (cs : List Char) : (skipLines cs).length ≤ cs.length := by
  fun_induction skipLines cs with
  | case1 cs rest h ih =>
    have h₁ := length_skipBreaks_le cs
    have h₂ : (rest.dropWhile isPlain).length ≤ rest.length :=
      (List.dropWhile_suffix isPlain).length_le
    rw [h, List.length_cons] at h₁
    omega
  | case2 cs _ => exact length_skipBreaks_le cs

/-- Takes a sign that stands behind blanks, line breaks and comments. -/
def sign? (sign : Char) (cs : List Char) : Option (Taken Char Char cs.length) :=
  match h : skipLines cs with
  | [] => none
  | c :: rest =>
    if c = sign then
      some ⟨c, rest, by
        have := length_skipLines_le cs
        rw [h, List.length_cons] at this; omega⟩
    else none

mutual

/-- A value whose lists and tables nest at most so deep. No scalar starts with a bracket
    or a brace, so at depth 0 neither is opened. -/
def takeValue? (depth : Nat) (cs : List Char) : Option (Taken Document Char cs.length) :=
  match depth, cs with
  | depth + 1, '[' :: rest => (takeItems? depth rest).map fun t => (t.map .list).behind
  | depth + 1, '\x7b' :: rest => (takePairs? depth (skipBlanks rest)).map fun t =>
      ((t.map fun es => .ofFields (Entries.toFields es)).widen (length_skipBlanks_le rest)).behind
  | _, cs =>
    ((string? cs).map fun t => t.map fun s => Document.text (String.ofList s)).or
      (takeScalar? cs)
termination_by 3 * cs.length
decreasing_by
  · simp only [List.length_cons]; omega
  · have := length_skipBlanks_le rest
    simp only [List.length_cons]; omega

/-- The items of a list after its bracket; a comma may follow the last. -/
def takeItems? (depth : Nat) (cs : List Char) : Option (Taken (List Document) Char cs.length) :=
  match sign? ']' cs with
  | some close => some (close.map fun _ => [])
  | none => do
    let value ← takeValue? depth (skipLines cs)
    let first := value.widen (length_skipLines_le cs)
    match sign? ',' first.rest with
    | some comma => do
      let others ← takeItems? depth comma.rest
      some (first.after (comma.after (others.map (first.value :: ·))))
    | none => do
      let close ← sign? ']' first.rest
      some (first.after (close.map fun _ => [first.value]))
termination_by 3 * cs.length + 1
decreasing_by
  · have := length_skipLines_le cs; omega
  · have := first.shorter; have := comma.shorter; omega

/-- The pairs of a table in braces, on one line and without a comma after the last. -/
def takePairs? (depth : Nat) (cs : List Char) : Option (Taken Entries Char cs.length) :=
  match cs with
  | '\x7d' :: rest => some (.one [] rest)
  | cs => takePairsInto? depth [] cs
termination_by 3 * cs.length + 2

/-- One or more pairs of a table in braces that already has entries. -/
def takePairsInto? (depth : Nat) (entries : Entries) (cs : List Char) :
    Option (Taken Entries Char cs.length) := do
  let key ← path? cs
  match h : key.rest with
  | '=' :: rest => do
    have hstart : (skipBlanks rest).length < cs.length := by
      have h₁ := length_skipBlanks_le rest
      have h₂ := key.shorter
      rw [h, List.length_cons] at h₂; omega
    let value ← takeValue? depth (skipBlanks rest)
    let entries ← Entries.add? key.value value.value entries
    match h₂ : skipBlanks value.rest with
    | ',' :: rest =>
      have hrest : (skipBlanks rest).length < cs.length := by
        have h₃ := length_skipBlanks_le value.rest
        have h₄ := length_skipBlanks_le rest
        have h₅ := value.shorter
        rw [h₂, List.length_cons] at h₃; omega
      let others ← takePairsInto? depth entries (skipBlanks rest)
      some (others.widen (Nat.le_of_lt hrest))
    | '\x7d' :: rest => some ⟨entries, rest, by
        have h₃ := length_skipBlanks_le value.rest
        have h₄ := value.shorter
        rw [h₂, List.length_cons] at h₃; omega⟩
    | _ => none
  | _ => none
termination_by 3 * cs.length + 1
decreasing_by
  · omega
  · omega

end

-- ── Lines ───────────────────────────────────────────────────────────────────

/-- The tables so far, and the header that keys now belong to. -/
structure File where
  root : Entries
  header : List String

/-- Reads a header, in single or double brackets. -/
def File.header? (f : File) (cs : List Char) : Option (File × List Char) :=
  match cs with
  | '[' :: cs => do
    let path ← path? (skipBlanks cs)
    match path.rest with
    | ']' :: ']' :: rest => some (⟨← Entries.openItem? path.value f.root, path.value⟩, rest)
    | _ => none
  | cs => do
    let path ← path? (skipBlanks cs)
    match path.rest with
    | ']' :: rest => some (⟨← Entries.openTable? path.value f.root, path.value⟩, rest)
    | _ => none

/-- Reads a key and its value. -/
def File.pair? (f : File) (cs : List Char) : Option (File × List Char) := do
  let key ← path? cs
  match key.rest with
  | '=' :: rest =>
    let value ← takeValue? maxDepth (skipBlanks rest)
    some (⟨← Entries.addUnder? f.header key.value value.value f.root, f.header⟩, value.rest)
  | _ => none

/-- Reads what stands on a line, up to a comment or the end of the line. -/
def File.line? (f : File) (cs : List Char) : Option (File × List Char) :=
  match cs with
  | [] => some (f, [])
  | '\n' :: _ => some (f, cs)
  | '\r' :: _ => some (f, cs)
  | '#' :: _ => some (f, cs)
  | '[' :: rest => f.header? rest
  | cs => f.pair? cs

/-- Reads all lines. Every line takes at least its line break, so there are no more lines
    than characters. -/
def File.lines? (f : File) (cs : List Char) : Option File := do
  let (f, rest) ← f.line? (skipBlanks cs)
  match skipComment (skipBlanks rest) with
  | [] => some f
  | rest =>
    match newline? rest with
    | none => none
    | some next => if next.length < cs.length then f.lines? next else none
termination_by cs.length

/-- The document that a TOML text writes. -/
def ofText? (s : String) : Option Document :=
  let cs := match s.toList with
    | '\ufeff' :: cs => cs
    | cs => cs
  ((⟨[], []⟩ : File).lines? cs).map fun f => .ofFields (Entries.toFields f.root)

end DocQuery.Toml
