import DocQuery.Taken
import DocQuery.Text.Quoted

/-!
# TOML texts — blanks, comments, strings and keys

The small parts of a TOML file. Strings come in four forms: basic ones with escapes and
literal ones without, each on one line or between triple quotes on several. A key is bare
or a string on one line, and a path is up to `maxDepth` keys joined by dots.
-/

namespace DocQuery.Toml

-- ── Layout ──────────────────────────────────────────────────────────────────

/-- A blank within a line. -/
def isBlank (c : Char) : Bool :=
  c == ' ' || c == '\t'

/-- A character that may stand in a comment or a string: a tab or no control character. -/
def isPlain (c : Char) : Bool :=
  c == '\t' || (0x20 ≤ c.toNat && c.toNat != 0x7f)

/-- The text after blanks. -/
def skipBlanks (cs : List Char) : List Char :=
  cs.dropWhile isBlank

theorem length_skipBlanks_le (cs : List Char) : (skipBlanks cs).length ≤ cs.length :=
  (List.dropWhile_suffix isBlank).length_le

/-- The text after a line break, if it starts with one. -/
def newline? : List Char → Option (List Char)
  | '\n' :: cs => some cs
  | '\r' :: '\n' :: cs => some cs
  | _ => none

/-- The text after a comment, up to the end of the line. -/
def skipComment : List Char → List Char
  | '#' :: cs => cs.dropWhile isPlain
  | cs => cs

/-- The text after blanks and line breaks. -/
def skipBreaks : List Char → List Char
  | [] => []
  | '\r' :: '\n' :: cs => skipBreaks cs
  | c :: cs => if isBlank c || c == '\n' then skipBreaks cs else c :: cs

theorem length_skipBreaks_le (cs : List Char) : (skipBreaks cs).length ≤ cs.length := by
  fun_induction skipBreaks cs with
  | case1 => exact Nat.le_refl _
  | case2 cs ih => simp only [List.length_cons]; omega
  | case3 c cs _ _ ih => simp only [List.length_cons]; omega
  | case4 => exact Nat.le_refl _

-- ── Escapes ─────────────────────────────────────────────────────────────────

/-- Takes a character given by so many hexadecimal digits. -/
def codePoint? (value : Nat) : Nat → (cs : List Char) → Option (Taken Char Char (cs.length + 1))
  | 0, cs =>
    if value < 0xD800 ∨ (0xE000 ≤ value ∧ value < 0x110000) then
      some (.one (Char.ofNat value) cs)
    else none
  | _ + 1, [] => none
  | n + 1, c :: cs =>
    (Text.hexValue? c).bind fun d => (codePoint? (value * 16 + d) n cs).map (·.behind)

/-- Takes what an escape stands for, after its backslash. -/
def escape? : (cs : List Char) → Option (Taken Char Char cs.length)
  | 'u' :: cs => codePoint? 0 4 cs
  | 'U' :: cs => codePoint? 0 8 cs
  | c :: cs =>
    let letter : Option Char := match c with
      | 'b' => some '\x08'
      | 't' => some '\t'
      | 'n' => some '\n'
      | 'f' => some '\x0c'
      | 'r' => some '\r'
      | '"' => some '"'
      | '\\' => some '\\'
      | _ => none
    letter.map fun l => .one l cs
  | [] => none

-- ── Strings ─────────────────────────────────────────────────────────────────

/-- The rest of a basic string after its opening quote. -/
def basic? (cs : List Char) : Option (Taken (List Char) Char cs.length) :=
  match cs with
  | [] => none
  | '"' :: rest => some (.one [] rest)
  | '\\' :: rest => do
    let e ← escape? rest
    let t ← basic? e.rest
    some (e.after (t.map (e.value :: ·))).behind
  | c :: rest =>
    if isPlain c then
      (basic? rest).map fun t => (t.map (c :: ·)).behind
    else none
termination_by cs.length
decreasing_by
  · have := e.shorter; simp only [List.length_cons]; omega
  · exact Nat.lt_succ_self _

/-- The rest of a literal string after its opening quote. -/
def literal? (cs : List Char) : Option (Taken (List Char) Char cs.length) :=
  match cs with
  | [] => none
  | '\'' :: rest => some (.one [] rest)
  | c :: rest =>
    if isPlain c then
      (literal? rest).map fun t => (t.map (c :: ·)).behind
    else none

/-- The rest of a basic string after its opening triple quote. A backslash at the end of a
    line takes away the blanks and line breaks that follow. -/
def longBasic? (cs : List Char) : Option (Taken (List Char) Char cs.length) :=
  match cs with
  | [] => none
  | '"' :: '"' :: '"' :: '"' :: '"' :: rest => some (Taken.one ['"', '"'] rest).behind.behind.behind.behind
  | '"' :: '"' :: '"' :: '"' :: rest => some (Taken.one ['"'] rest).behind.behind.behind
  | '"' :: '"' :: '"' :: rest => some (Taken.one [] rest).behind.behind
  | '\\' :: rest =>
    if (newline? (skipBlanks rest)).isSome then
      (longBasic? (skipBreaks rest)).map fun t => (t.widen (length_skipBreaks_le rest)).behind
    else do
      let e ← escape? rest
      let t ← longBasic? e.rest
      some (e.after (t.map (e.value :: ·))).behind
  | '\r' :: '\n' :: rest =>
    (longBasic? rest).map fun t => (t.map ('\n' :: ·)).behind.behind
  | c :: rest =>
    if isPlain c || c == '\n' then
      (longBasic? rest).map fun t => (t.map (c :: ·)).behind
    else none
termination_by cs.length
decreasing_by
  · have := length_skipBreaks_le rest; simp only [List.length_cons]; omega
  · have := e.shorter; simp only [List.length_cons]; omega
  · simp only [List.length_cons]; omega
  · exact Nat.lt_succ_self _

/-- The rest of a literal string after its opening triple quote. -/
def longLiteral? (cs : List Char) : Option (Taken (List Char) Char cs.length) :=
  match cs with
  | [] => none
  | '\'' :: '\'' :: '\'' :: '\'' :: '\'' :: rest => some (Taken.one ['\'', '\''] rest).behind.behind.behind.behind
  | '\'' :: '\'' :: '\'' :: '\'' :: rest => some (Taken.one ['\''] rest).behind.behind.behind
  | '\'' :: '\'' :: '\'' :: rest => some (Taken.one [] rest).behind.behind
  | '\r' :: '\n' :: rest =>
    (longLiteral? rest).map fun t => (t.map ('\n' :: ·)).behind.behind
  | c :: rest =>
    if isPlain c || c == '\n' then
      (longLiteral? rest).map fun t => (t.map (c :: ·)).behind
    else none

/-- The text after a line break, which is left out right behind an opening triple quote. -/
def dropFirstBreak (cs : List Char) : List Char :=
  (newline? cs).getD cs

theorem length_dropFirstBreak_le (cs : List Char) :
    (dropFirstBreak cs).length ≤ cs.length := by
  unfold dropFirstBreak newline?
  split <;> simp only [Option.getD_some, Option.getD_none, List.length_cons] <;> omega

/-- A string of any form. -/
def string? (cs : List Char) : Option (Taken (List Char) Char cs.length) :=
  match cs with
  | '"' :: '"' :: '"' :: rest => (longBasic? (dropFirstBreak rest)).map fun t =>
      (t.widen (length_dropFirstBreak_le rest)).behind.behind.behind
  | '\'' :: '\'' :: '\'' :: rest => (longLiteral? (dropFirstBreak rest)).map fun t =>
      (t.widen (length_dropFirstBreak_le rest)).behind.behind.behind
  | '"' :: rest => (basic? rest).map (·.behind)
  | '\'' :: rest => (literal? rest).map (·.behind)
  | _ => none

-- ── Keys ────────────────────────────────────────────────────────────────────

/-- The most keys that a path joins, and the most lists and tables that a value opens
    within one another. The two are counted apart. -/
def maxDepth : Nat := 79

/-- A character of a bare key. -/
def isBare (c : Char) : Bool :=
  c.isAlphanum || c == '_' || c == '-'

theorem length_dropBare_lt (cs : List Char) : (cs.dropWhile isBare).length < cs.length + 1 :=
  Nat.lt_succ_of_le (List.dropWhile_suffix isBare).length_le

/-- A key without dots. -/
def simpleKey? (cs : List Char) : Option (Taken String Char cs.length) :=
  match cs with
  | '"' :: rest => (basic? rest).map fun t => (t.map String.ofList).behind
  | '\'' :: rest => (literal? rest).map fun t => (t.map String.ofList).behind
  | c :: rest =>
    if isBare c then
      some ⟨String.ofList (c :: rest.takeWhile isBare), rest.dropWhile isBare,
        length_dropBare_lt rest⟩
    else none
  | [] => none

/-- Keys joined by dots, with blanks around the dots and after the last. -/
def dottedKey? (cs : List Char) : Option (Taken (List String) Char cs.length) := do
  let first ← simpleKey? cs
  match h : skipBlanks first.rest with
  | '.' :: rest =>
    have shorter : (skipBlanks rest).length < cs.length := by
      have h₁ := length_skipBlanks_le first.rest
      have h₂ := length_skipBlanks_le rest
      have h₃ := first.shorter
      rw [h, List.length_cons] at h₁
      omega
    let others ← dottedKey? (skipBlanks rest)
    some ((others.map (first.value :: ·)).widen (Nat.le_of_lt shorter))
  | rest => some ⟨[first.value], rest, by
      have h₁ := length_skipBlanks_le first.rest
      have h₂ := first.shorter
      rw [h] at h₁
      omega⟩
termination_by cs.length

/-- Keys joined by dots, no more than the most. -/
def path? (cs : List Char) : Option (Taken (List String) Char cs.length) :=
  (dottedKey? cs).filter fun keys => keys.value.length ≤ maxDepth

end DocQuery.Toml
