import DocQuery.Document.Numeral
import DocQuery.Taken
import DocQuery.Text.Quoted

/-!
# Reading documents — the JSON grammar

`Document.ofText?` reads one JSON value with nothing but white space around it. Each
nonterminal takes its text from the front and leaves a shorter rest.
-/

namespace DocQuery.Document

/-- The white space of JSON. -/
def isSpace (c : Char) : Bool :=
  c == ' ' || c == '\t' || c == '\n' || c == '\r'

/-- The text after white space. -/
def skipSpace (cs : List Char) : List Char :=
  cs.dropWhile isSpace

theorem length_skipSpace_le (cs : List Char) : (skipSpace cs).length ≤ cs.length :=
  (List.dropWhile_suffix isSpace).length_le

-- ── Words and numbers ───────────────────────────────────────────────────────

/-- Takes a word off the front. -/
def takeWord? (word : List Char) (cs : List Char) : Option (List Char) :=
  match word, cs with
  | [], cs => some cs
  | w :: ws, c :: cs => if w = c then takeWord? ws cs else none
  | _ :: _, [] => none

theorem length_of_takeWord? {word cs rest : List Char} (h : takeWord? word cs = some rest) :
    rest.length + word.length = cs.length := by
  induction word generalizing cs with
  | nil => simp_all [takeWord?]
  | cons w ws ih =>
    cases cs with
    | nil => simp [takeWord?] at h
    | cons c cs =>
      by_cases hw : w = c
      · simp only [takeWord?, hw, if_true] at h
        have := ih h
        simp only [List.length_cons]; omega
      · simp [takeWord?, hw] at h

/-- A word that stands for a value. -/
def word? (word : String) (d : Document) (cs : List Char) : Option (Taken Document Char cs.length) :=
  match h : takeWord? word.toList cs with
  | some rest =>
    if hw : 0 < word.toList.length then
      some ⟨d, rest, by have := length_of_takeWord? h; omega⟩
    else none
  | none => none

/-- The digits at the front. -/
def takeDigits (cs : List Char) : List Nat × List Char :=
  ((cs.takeWhile Char.isDigit).map fun c => c.toNat - '0'.toNat, cs.dropWhile Char.isDigit)

theorem length_takeDigits (cs : List Char) :
    (takeDigits cs).1.length + (takeDigits cs).2.length = cs.length := by
  rw [takeDigits, List.length_map, ← List.length_append, List.takeWhile_append_dropWhile]

/-- The digits at the front, at least one. -/
def someDigits? (cs : List Char) : Option (Taken (List Nat) Char (cs.length + 1)) :=
  if (takeDigits cs).1.isEmpty then none
  else some ⟨(takeDigits cs).1, (takeDigits cs).2, by
    have := length_takeDigits cs
    omega⟩

/-- The digits after a point: none if there is no point, refused if no digit follows it. -/
def fraction? (cs : List Char) :
    Option (Taken (Option (List Nat)) Char (cs.length + 1)) :=
  match cs with
  | '.' :: cs => (someDigits? cs).map fun t => (t.map some).behind
  | cs => some (.one none cs)

/-- The exponent: none if there is none, refused if it has no digit. -/
def exponent? (cs : List Char) : Option (Taken (Option Int) Char (cs.length + 1)) :=
  match cs with
  | c :: cs =>
    if c = 'e' ∨ c = 'E' then
      match cs with
      | '-' :: cs => (someDigits? cs).map fun t => (t.map (some ∘ value true)).behind.behind
      | '+' :: cs => (someDigits? cs).map fun t => (t.map (some ∘ value false)).behind.behind
      | cs => (someDigits? cs).map fun t => (t.map (some ∘ value false)).behind
    else some (.one none (c :: cs))
  | [] => some (.one none [])
where
  value (negative : Bool) (digits : List Nat) : Int :=
    let e : Int := (digits.foldl (fun n d => n * 10 + d) 0 : Nat)
    if negative then -e else e

/-- A number without its sign: no digit may follow a leading zero. -/
def number? (negative : Bool) (cs : List Char) : Option (Taken Document Char cs.length) := do
  let whole := (takeDigits cs).1
  if hw : whole.length = 0 then none
  else if whole.head? == some 0 && whole.length != 1 then none
  else
    let fraction ← fraction? (takeDigits cs).2
    let exponent ← exponent? fraction.rest
    let d ← ofNumeral? negative whole fraction.value exponent.value
    some ⟨d, exponent.rest, by
      have h₁ : whole.length + _ = _ := length_takeDigits cs
      have h₂ := fraction.shorter
      have h₃ := exponent.shorter
      omega⟩

-- ── Texts ───────────────────────────────────────────────────────────────────

/-- The value of four hexadecimal digits. -/
def codeUnit? (a b c d : Char) : Option Nat :=
  [a, b, c, d].foldlM (fun n c => (Text.hexValue? c).map (n * 16 + ·)) 0

/-- What the letter after a backslash stands for. -/
def escaped? : Char → Option Char
  | '"' => some '"'
  | '\\' => some '\\'
  | '/' => some '/'
  | 'b' => some '\x08'
  | 'f' => some '\x0c'
  | 'n' => some '\n'
  | 'r' => some '\r'
  | 't' => some '\t'
  | _ => none

/-- The characters of a text up to its closing quote. Code points beyond U+FFFF are
    escaped as two surrogates, and half a pair is refused. -/
def quoted? (cs : List Char) : Option (Taken (List Char) Char cs.length) :=
  match cs with
  | [] => none
  | '"' :: rest => some (.one [] rest)
  | '\\' :: 'u' :: a :: b :: c :: d :: rest =>
    match codeUnit? a b c d with
    | none => none
    | some n =>
      if 0xD800 ≤ n ∧ n < 0xDC00 then
        match rest with
        | '\\' :: 'u' :: a :: b :: c :: d :: rest =>
          match codeUnit? a b c d with
          | none => none
          | some m =>
            if 0xDC00 ≤ m ∧ m < 0xE000 then
              let wide := 0x10000 + (n - 0xD800) * 0x400 + (m - 0xDC00)
              (quoted? rest).map fun t =>
                (t.map (Char.ofNat wide :: ·)).widen (by simp only [List.length_cons]; omega)
            else none
        | _ => none
      else if 0xDC00 ≤ n ∧ n < 0xE000 then none
      else (quoted? rest).map fun t =>
        (t.map (Char.ofNat n :: ·)).widen (by simp only [List.length_cons]; omega)
  | '\\' :: c :: rest =>
    match escaped? c with
    | none => none
    | some e => (quoted? rest).map fun t => (t.map (e :: ·)).behind.behind
  | c :: rest =>
    if c.toNat < 0x20 || c == '\\' then none
    else (quoted? rest).map fun t => (t.map (c :: ·)).behind
termination_by cs.length

-- ── Values ──────────────────────────────────────────────────────────────────

mutual

/-- A value, with white space before it. -/
def takeValue? (cs : List Char) : Option (Taken Document Char cs.length) :=
  match h : skipSpace cs with
  | [] => none
  | c :: rest =>
    have hlt : rest.length < cs.length := by
      have := length_skipSpace_le cs
      rw [h, List.length_cons] at this; omega
    let taken : Option (Taken Document Char (c :: rest).length) :=
      if c = '"' then
        (quoted? rest).map fun t =>
          (t.map fun cs => .text (String.ofList cs)).behind
      else if c = '[' then (takeItems? rest).map fun t => (t.map .list).behind
      else if c = '{' then (takeFields? rest).map fun t => (t.map .ofFields).behind
      else if c = '-' then (number? true rest).map (·.behind)
      else if c.isDigit then number? false (c :: rest)
      else (word? "true" (.boolean true) (c :: rest)).or
        ((word? "false" (.boolean false) (c :: rest)).or (word? "null" .null (c :: rest)))
    taken.map (·.widen hlt)
termination_by 4 * cs.length + 3

/-- The items of a list after its bracket. -/
def takeItems? (cs : List Char) : Option (Taken (List Document) Char cs.length) :=
  match h : skipSpace cs with
  | ']' :: rest => some ⟨[], rest, by
      have := length_skipSpace_le cs
      rw [h, List.length_cons] at this; omega⟩
  | _ => do
    let first ← takeValue? cs
    let others ← takeMoreItems? first.rest
    some (first.after (others.map (first.value :: ·)))
termination_by 4 * cs.length + 4
decreasing_by
  · omega
  · have := first.shorter; omega

/-- The items of a list after one of them. -/
def takeMoreItems? (cs : List Char) : Option (Taken (List Document) Char cs.length) :=
  match h : skipSpace cs with
  | ']' :: rest => some ⟨[], rest, by
      have := length_skipSpace_le cs
      rw [h, List.length_cons] at this; omega⟩
  | ',' :: rest => do
    have hlt : rest.length < cs.length := by
      have := length_skipSpace_le cs
      rw [h, List.length_cons] at this; omega
    let next ← takeValue? rest
    let others ← takeMoreItems? next.rest
    some ⟨next.value :: others.value, others.rest, by
      have := next.shorter; have := others.shorter; omega⟩
  | _ => none
termination_by 4 * cs.length + 4
decreasing_by
  · omega
  · have := next.shorter; omega

/-- A field: its name, a colon and its value. -/
def takeField? (cs : List Char) : Option (Taken (String × Document) Char cs.length) :=
  match h : skipSpace cs with
  | '"' :: rest => do
    have hlt : rest.length < cs.length := by
      have := length_skipSpace_le cs
      rw [h, List.length_cons] at this; omega
    let name ← quoted? rest
    match hc : skipSpace name.rest with
    | ':' :: after =>
      have hafter : after.length < cs.length := by
        have h₁ := length_skipSpace_le name.rest
        have h₂ := name.shorter
        rw [hc, List.length_cons] at h₁; omega
      let v ← takeValue? after
      some ⟨(String.ofList name.value, v.value), v.rest, Nat.lt_trans v.shorter hafter⟩
    | _ => none
  | _ => none
termination_by 4 * cs.length + 3

/-- The fields of an object after its brace. -/
def takeFields? (cs : List Char) : Option (Taken (List (String × Document)) Char cs.length) :=
  match h : skipSpace cs with
  | '}' :: rest => some ⟨[], rest, by
      have := length_skipSpace_le cs
      rw [h, List.length_cons] at this; omega⟩
  | _ => do
    let first ← takeField? cs
    let others ← takeMoreFields? first.rest
    some (first.after (others.map (first.value :: ·)))
termination_by 4 * cs.length + 4
decreasing_by
  · omega
  · have := first.shorter; omega

/-- The fields of an object after one of them. -/
def takeMoreFields? (cs : List Char) : Option (Taken (List (String × Document)) Char cs.length) :=
  match h : skipSpace cs with
  | '}' :: rest => some ⟨[], rest, by
      have := length_skipSpace_le cs
      rw [h, List.length_cons] at this; omega⟩
  | ',' :: rest => do
    have hlt : rest.length < cs.length := by
      have := length_skipSpace_le cs
      rw [h, List.length_cons] at this; omega
    let next ← takeField? rest
    let others ← takeMoreFields? next.rest
    some ⟨next.value :: others.value, others.rest, by
      have := next.shorter; have := others.shorter; omega⟩
  | _ => none
termination_by 4 * cs.length + 4
decreasing_by
  · omega
  · have := next.shorter; omega

end

/-- The document that a text writes. -/
def ofText? (s : String) : Option Document := do
  let d ← takeValue? s.toList
  if (skipSpace d.rest).isEmpty then some d.value else none

end DocQuery.Document
