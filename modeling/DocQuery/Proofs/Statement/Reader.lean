import DocQuery.Proofs.Except
import DocQuery.Proofs.Statement.Grammar

/-!
# Nonterminals as readers

What a nonterminal reads says in its type from which tokens, so two runs on different tokens are
hard to compare. A reader forgets this: it is a computation on the tokens that are left. Each
nonterminal is a reader made of single tokens and of the nonterminals of its rule, in their order
(`reader_columnName`, …), and what it does at a token it does after looking at this token only.
-/

namespace DocQuery

namespace Grammar

variable {α β : Type} {n : Nat} {b : List Token → Nat} {ts : List Token}

-- ── Steps ───────────────────────────────────────────────────────────────────

/-- A token that was taken stood in front and passed the test. -/
theorem next?_eq_some {test : Token → Bool} {t : Taken Token Token ts.length}
    (h : next? test ts = some t) : ts = t.value :: t.rest ∧ test t.value = true := by
  cases ts with
  | nil => cases h
  | cons u us =>
      rw [next?] at h
      split at h
      · rename_i htest
        rw [← Option.some.inj h]
        exact ⟨rfl, htest⟩
      · cases h

theorem kind?_eq_some {k : TokenKind} {t : Taken Token Token ts.length} (h : kind? k ts = some t) :
    ts = t.value :: t.rest ∧ t.value.kind = k :=
  (next?_eq_some h).imp_right beq_iff_eq.mp

theorem keyword?_eq_some {word : String} {t : Taken Token Token ts.length}
    (h : keyword? word ts = some t) : ts = t.value :: t.rest ∧ t.value.isKeyword word = true :=
  next?_eq_some h

/-- A computation that takes tokens off the front, or stops. -/
abbrev Reader (α : Type) : Type :=
  StateT (List Token) (Except Stop) α

/-- What is read, and what is left. -/
def plain (p : Parsed α n) : Except Stop (α × List Token) :=
  p.map fun t => (t.value, t.rest)

/-- A nonterminal as a reader. -/
def reader (p : (ts : List Token) → Parsed α (b ts)) : Reader α :=
  fun ts => plain (p ts)

/-- Takes the first token if it has a value, and stops at it if not. -/
def take (value : Token → Except Expectation α) (expected : Expectation) : Reader α
  | [] => .error ⟨expected, []⟩
  | t :: ts =>
    match value t with
    | .ok v => .ok (v, ts)
    | .error e => .error ⟨e, t :: ts⟩

/-- Takes the first token if it passes a test. -/
def expect (test : Token → Bool) (expected : Expectation) : Reader Token :=
  take (fun t => if test t then .ok t else .error expected) expected

/-- Goes on behind the first token if it passes a test, and in front of it if not. -/
def perhaps (test : Token → Bool) (yes : Token → Reader α) (no : Reader α) : Reader α
  | [] => no []
  | t :: ts => if test t then yes t ts else no (t :: ts)

/-- A nonterminal that goes on reads as its reader that goes on. -/
theorem plain_bind {p : (ts : List Token) → Parsed α (b ts)}
    {f : Taken α Token (b ts) → Parsed β n} {g : α → Reader β}
    (h : ∀ t, plain (f t) = g t.value t.rest) : plain (p ts >>= f) = (reader p >>= g) ts := by
  show _ = (do
    let q ← plain (p ts)
    g q.1 q.2)
  cases p ts with
  | error stop => rfl
  | ok t => exact h t

/-- To go on by repeating what was taken changes nothing. -/
theorem plain_bind_ok {p : Parsed α n} {m : Nat} {f : Taken α Token n → Parsed α m}
    (h : ∀ t, plain (f t) = .ok (t.value, t.rest)) : plain (p >>= f) = plain p := by
  cases p with
  | error stop => rfl
  | ok t => exact h t

theorem ok_bind (v : α) (f : α → Except Stop β) : Except.ok v >>= f = f v :=
  rfl

/-- A reader leaves less than its nonterminal was bounded by. -/
theorem length_lt_of_reader {p : (ts : List Token) → Parsed α (b ts)} {v : α}
    {rest : List Token} (h : reader p ts = .ok (v, rest)) : rest.length < b ts := by
  obtain ⟨t, -, ht⟩ := map_eq_ok_iff.mp h
  rw [← (Prod.mk.inj ht).2]
  exact t.shorter

section Tokens

variable {test : Token → Bool} {t : Taken Token Token ts.length}

/-- Where the first token passes the test, it is taken. -/
theorem perhaps_some {yes : Token → Reader α} {no : Reader α} (h : next? test ts = some t) :
    perhaps test yes no ts = yes t.value t.rest := by
  cases ts with
  | nil => cases h
  | cons u us =>
      rw [next?] at h
      split at h
      · rename_i htest
        rw [← Option.some.inj h]
        exact if_pos htest
      · cases h

/-- No token was taken if the first one, if any, fails the test. -/
theorem next?_eq_none (h : next? test ts = none) : ∀ t ∈ ts.head?, test t = false := by
  cases ts with
  | nil => exact fun t ht => nomatch ht
  | cons u us =>
      intro t ht
      rw [← Option.some.inj ht]
      rw [next?] at h
      split at h
      · cases h
      · exact Bool.eq_false_iff.mpr ‹_›

/-- Where it does not, it is left. -/
theorem perhaps_none {yes : Token → Reader α} {no : Reader α} (h : next? test ts = none) :
    perhaps test yes no ts = no ts := by
  cases ts with
  | nil => rfl
  | cons u us => rw [perhaps, if_neg (Bool.eq_false_iff.mp (next?_eq_none h u rfl))]

/-- An expected token is taken off. -/
theorem expect_some {expected : Expectation} {g : Token → Reader α}
    (h : next? test ts = some t) : (expect test expected >>= g) ts = g t.value t.rest := by
  have htake : expect test expected ts = .ok (t.value, t.rest) := by
    cases ts with
    | nil => cases h
    | cons u us =>
        rw [next?] at h
        split at h
        · rename_i htest
          rw [← Option.some.inj h, expect, take, if_pos htest]
        · cases h
  show (expect test expected ts >>= fun q => g q.1 q.2) = _
  rw [htake]
  rfl

/-- Reading stops in front of a token that is not expected. -/
theorem expect_none {expected : Expectation} {g : Token → Reader α}
    (h : next? test ts = none) : (expect test expected >>= g) ts = .error ⟨expected, ts⟩ := by
  have htake : expect test expected ts = .error ⟨expected, ts⟩ := by
    cases ts with
    | nil => rfl
    | cons u us => rw [expect, take, if_neg (Bool.eq_false_iff.mp (next?_eq_none h u rfl))]
  show (expect test expected ts >>= fun q => g q.1 q.2) = _
  rw [htake]
  rfl

end Tokens

/-- A token of a kind is read by its text. -/
theorem reader_kind (k : TokenKind) (expected : Expectation) :
    reader (kind k expected) = (do
      let t ← expect (·.kind == k) expected
      return t.text) := by
  funext ts
  rw [reader, kind]
  split
  · rename_i t ht
    rw [expect_some ht]
    rfl
  · rename_i hnone
    rw [expect_none hnone]
    rfl

/-- A keyword is expected as it is. -/
theorem reader_keyword (word : String) :
    reader (keyword word) = (expect (·.isKeyword word) (.keyword word) >>= pure) := by
  funext ts
  rw [reader, keyword]
  split
  · rename_i t ht
    rw [expect_some ht]
    rfl
  · rename_i hnone
    rw [expect_none hnone]
    rfl

-- ── Lists and clauses ───────────────────────────────────────────────────────

/-- A list is read by its first item, and goes on behind a separator. -/
theorem reader_separated (test : Token → Bool) (item : (ts : List Token) → Parsed α ts.length) :
    reader (separated (next? test) item) = (do
      let first ← reader item
      perhaps test
        (fun _ => do
          let others ← reader (separated (next? test) item)
          return first :: others)
        (return [first])) := by
  funext ts
  rw [reader, separated]
  refine plain_bind fun first => ?_
  split
  · rename_i hnone
    rw [perhaps_none hnone]
    rfl
  · rename_i sep hsep
    rw [perhaps_some hsep]
    exact plain_bind fun others => rfl

/-- A clause is read if its keyword stands in front. -/
theorem reader_clause? (word : String) (body : (ts : List Token) → Parsed α ts.length) :
    reader (clause? word body) = perhaps (·.isKeyword word)
      (fun _ => do
        let v ← reader body
        return some v)
      (return none) := by
  funext ts
  rw [reader, clause?]
  split
  · rename_i hnone
    rw [perhaps_none hnone]
    rfl
  · rename_i k hk
    rw [perhaps_some hk]
    exact plain_bind fun v => rfl

/-- A body behind `BY` is read after that word. -/
theorem reader_afterBy (body : (ts : List Token) → Parsed α ts.length) :
    reader (afterBy body) = (do
      let _ ← reader (keyword "BY")
      reader body) := by
  funext ts
  rw [reader, afterBy]
  refine plain_bind fun word => ?_
  exact plain_bind_ok fun v => rfl

-- ── Names ───────────────────────────────────────────────────────────────────

/-- A name is qualified if a dot follows it. -/
theorem reader_columnName : reader columnName = (do
    let name ← reader identifier
    perhaps (·.kind == .dot)
      (fun _ => do
        let field ← reader identifier
        return (some name, field))
      (return (none, name))) := by
  funext ts
  rw [reader, columnName]
  refine plain_bind fun name => ?_
  split
  · rename_i hnone
    rw [perhaps_none hnone]
    rfl
  · rename_i dot hdot
    rw [perhaps_some hdot]
    exact plain_bind fun field => rfl

/-- A table is hinted if a sign follows its name. -/
theorem reader_table : reader table = (do
    let name ← reader identifier
    perhaps (·.kind == .at)
      (fun _ => do
        let index ← reader identifier
        return (name, some index))
      (return (name, none))) := by
  funext ts
  rw [reader, table]
  refine plain_bind fun name => ?_
  split
  · rename_i hnone
    rw [perhaps_none hnone]
    rfl
  · rename_i sign hsign
    rw [perhaps_some hsign]
    exact plain_bind fun index => rfl

-- ── Calls ───────────────────────────────────────────────────────────────────

/-- An argument is told by the token behind its first name. -/
theorem reader_argument : reader argument = perhaps (·.kind == .star)
    (fun _ => return .star)
    (do
      let name ← reader identifier
      perhaps (·.kind == .leftParen)
        (fun _ => do
          let args ← reader arguments
          return .call (Text.upper name) args)
        (perhaps (·.kind == .dot)
          (fun _ => perhaps (·.kind == .star)
            (fun _ => return .tableStar name)
            (do
              let field ← reader identifier
              return .column (some name) field))
          (return .column none name))) := by
  funext ts
  rw [reader, argument]
  split
  · rename_i star hstar
    rw [perhaps_some hstar]
    rfl
  · rename_i hstar
    rw [perhaps_none hstar]
    refine plain_bind fun name => ?_
    split
    · rename_i paren hparen
      rw [perhaps_some hparen]
      exact plain_bind fun args => rfl
    · rename_i hparen
      rw [perhaps_none hparen]
      split
      · rename_i hdot
        rw [perhaps_none hdot]
        rfl
      · rename_i dot hdot
        rw [perhaps_some hdot]
        split
        · rename_i star hstar
          rw [perhaps_some hstar]
          rfl
        · rename_i hstar
          rw [perhaps_none hstar]
          exact plain_bind fun field => rfl

/-- Arguments are read up to the closing parenthesis, which may come at once. -/
theorem reader_arguments : reader arguments = perhaps (·.kind == .rightParen)
    (fun _ => return [])
    (do
      let first ← reader argument
      let others ← reader moreArguments
      return first :: others) := by
  funext ts
  rw [reader, arguments]
  split
  · rename_i paren hparen
    rw [perhaps_some hparen]
    rfl
  · rename_i hparen
    rw [perhaps_none hparen]
    exact plain_bind fun first => plain_bind fun others => rfl

/-- Behind an argument comes a comma and another one, or the parenthesis. -/
theorem reader_moreArguments : reader moreArguments = perhaps (·.kind == .comma)
    (fun _ => do
      let next ← reader argument
      let others ← reader moreArguments
      return next :: others)
    (do
      let _ ← reader (kind .rightParen .rightParen)
      return []) := by
  funext ts
  rw [reader, moreArguments]
  split
  · rename_i comma hcomma
    rw [perhaps_some hcomma]
    exact plain_bind fun next => plain_bind fun others => rfl
  · rename_i hcomma
    rw [perhaps_none hcomma]
    exact plain_bind fun paren => rfl

-- ── Columns ─────────────────────────────────────────────────────────────────

/-- A column is told as an argument is, and may have a label. -/
theorem reader_column : reader column = (do
    let name ← reader identifier
    perhaps (·.kind == .leftParen)
      (fun _ => do
        let args ← reader arguments
        let label ← reader label?
        return .call ⟨Text.upper name, args⟩ label)
      (perhaps (·.kind == .dot)
        (fun _ => perhaps (·.kind == .star)
          (fun _ => return .tableStar name)
          (do
            let field ← reader identifier
            let label ← reader label?
            return .field (some name) field label))
        (do
          let label ← reader label?
          return .field none name label))) := by
  funext ts
  rw [reader, column]
  refine plain_bind fun name => ?_
  split
  · rename_i paren hparen
    rw [perhaps_some hparen]
    exact plain_bind fun args => plain_bind fun label => rfl
  · rename_i hparen
    rw [perhaps_none hparen]
    split
    · rename_i hdot
      rw [perhaps_none hdot]
      exact plain_bind fun label => rfl
    · rename_i dot hdot
      rw [perhaps_some hdot]
      split
      · rename_i star hstar
        rw [perhaps_some hstar]
        rfl
      · rename_i hstar
        rw [perhaps_none hstar]
        exact plain_bind fun field => plain_bind fun label => rfl

/-- The columns are a star or a list. -/
theorem reader_columns : reader columns = perhaps (·.kind == .star)
    (fun _ => return [.star])
    (reader (separated (kind? .comma) column)) := by
  funext ts
  rw [reader, columns]
  split
  · rename_i star hstar
    rw [perhaps_some hstar]
    rfl
  · rename_i hstar
    rw [perhaps_none hstar]
    rfl

-- ── Joins ───────────────────────────────────────────────────────────────────

/-- In an equality a name has to be qualified. -/
theorem reader_qualifiedName : reader qualifiedName = (do
    let table ← reader identifier
    let _ ← reader (kind .dot .qualifyingDot)
    let field ← reader identifier
    return (table, field)) := by
  funext ts
  rw [reader, qualifiedName]
  exact plain_bind fun table => plain_bind fun dot => plain_bind fun field => rfl

/-- An equality is read from the left to the right. -/
theorem reader_equality : reader equality = (do
    let left ← reader qualifiedName
    let _ ← expect (fun t => t.kind == .operator && t.text == "=") .joinEquals
    let right ← reader qualifiedName
    return ⟨left.1, left.2, right.1, right.2⟩) := by
  funext ts
  rw [reader, equality]
  refine plain_bind fun left => ?_
  split
  · rename_i hnone
    rw [expect_none hnone]
    rfl
  · rename_i sign hsign
    rw [expect_some hsign]
    exact plain_bind fun right => rfl

/-- A join is read up to the last of its equalities. -/
theorem reader_join : reader join = (do
    let table ← reader table
    let _ ← reader (keyword "ON")
    let conditions ← reader (separated (keyword? "AND") equality)
    return ⟨table.1, table.2, conditions⟩) := by
  funext ts
  rw [reader, join]
  exact plain_bind fun table => plain_bind fun on => plain_bind fun conditions => rfl

/-- Joins are read as long as one is opened, by one word or by two. -/
theorem reader_joins : reader joins = perhaps (·.isKeyword "INNER")
    (fun _ => do
      let _ ← reader (keyword "JOIN")
      let first ← reader join
      let others ← reader joins
      return first :: others)
    (perhaps (·.isKeyword "JOIN")
      (fun _ => do
        let first ← reader join
        let others ← reader joins
        return first :: others)
      (return [])) := by
  funext ts
  rw [reader, joins, joinWords?]
  split
  · rename_i hinner
    rw [perhaps_none hinner]
    rw [ok_bind]
    split
    · rename_i hjoin
      rw [perhaps_none hjoin]
      rfl
    · rename_i word hjoin
      rw [perhaps_some hjoin]
      exact plain_bind fun first => plain_bind fun others => rfl
  · rename_i inner hinner
    rw [perhaps_some hinner]
    rw [bind_assoc]
    refine plain_bind fun word => ?_
    rw [ok_bind]
    exact plain_bind fun first => plain_bind fun others => rfl

-- ── Conditions ──────────────────────────────────────────────────────────────

/-- A subject is a call if a parenthesis follows the name. -/
theorem reader_subject : reader subject = (do
    let name ← reader identifier
    perhaps (·.kind == .leftParen)
      (fun _ => do
        let args ← reader arguments
        return .call ⟨Text.upper name, args⟩)
      (perhaps (·.kind == .dot)
        (fun _ => do
          let field ← reader identifier
          return .column (some name) field)
        (return .column none name))) := by
  funext ts
  rw [reader, subject]
  refine plain_bind fun name => ?_
  split
  · rename_i paren hparen
    rw [perhaps_some hparen]
    exact plain_bind fun args => rfl
  · rename_i hparen
    rw [perhaps_none hparen]
    split
    · rename_i hdot
      rw [perhaps_none hdot]
      rfl
    · rename_i dot hdot
      rw [perhaps_some hdot]
      exact plain_bind fun field => rfl

/-- The operator that a token is. -/
def operatorOf (t : Token) : Except Expectation Operator :=
  if t.kind = .operator then
    match Operator.ofSymbol? t.text with
    | some op => .ok op
    | none => .error .comparisonOperator
  else .error .comparisonOperator

theorem reader_operator : reader operator = take operatorOf .comparisonOperator := by
  funext ts
  cases ts with
  | nil => rfl
  | cons t ts =>
      rw [reader, operator, take, operatorOf]
      by_cases hkind : t.kind = .operator
      · rw [if_pos hkind, kind?, next?, if_pos (beq_iff_eq.mpr hkind)]
        dsimp only
        cases Operator.ofSymbol? t.text with
        | none => rfl
        | some op => rfl
      · rw [if_neg hkind, kind?, next?, if_neg (by rwa [beq_iff_eq])]
        rfl

theorem reader_literal : reader literal = take literalOf .literal := by
  funext ts
  cases ts with
  | nil => rfl
  | cons t ts =>
      rw [reader, literal, take]
      cases literalOf t with
      | ok v => rfl
      | error e => rfl

/-- A parenthesis opens a condition, and any other token a comparison. -/
theorem reader_test : reader test = perhaps (·.kind == .leftParen)
    (fun _ => do
      let inner ← reader disjunction
      let _ ← reader (kind .rightParen .rightParen)
      return inner)
    (do
      let subject ← reader subject
      let op ← reader operator
      let value ← reader literal
      return .compare ⟨subject, op, value⟩) := by
  funext ts
  rw [reader, test]
  split
  · rename_i paren hparen
    rw [perhaps_some hparen]
    exact plain_bind fun inner => plain_bind fun close => rfl
  · rename_i hparen
    rw [perhaps_none hparen]
    exact plain_bind fun subject => plain_bind fun op => plain_bind fun value => rfl

/-- A conjunction is read by its first test. -/
theorem reader_conjunction : reader conjunction = (do
    let first ← reader test
    reader (conjunctionFrom first)) := by
  funext ts
  rw [reader, conjunction]
  refine plain_bind fun first => ?_
  exact plain_bind_ok fun whole => rfl

/-- A conjunction goes on to the left as long as `AND` follows. -/
theorem reader_conjunctionFrom (left : Condition) :
    reader (conjunctionFrom left) = perhaps (·.isKeyword "AND")
      (fun _ => do
        let right ← reader test
        reader (conjunctionFrom (.and left right)))
      (return left) := by
  funext ts
  rw [reader, conjunctionFrom]
  split
  · rename_i hword
    rw [perhaps_none hword]
    rfl
  · rename_i word hword
    rw [perhaps_some hword]
    refine plain_bind fun right => ?_
    exact plain_bind_ok fun whole => rfl

/-- A disjunction is read by its first conjunction. -/
theorem reader_disjunction : reader disjunction = (do
    let first ← reader conjunction
    reader (disjunctionFrom first)) := by
  funext ts
  rw [reader, disjunction]
  refine plain_bind fun first => ?_
  exact plain_bind_ok fun whole => rfl

/-- A disjunction goes on to the left as long as `OR` follows. -/
theorem reader_disjunctionFrom (left : Condition) :
    reader (disjunctionFrom left) = perhaps (·.isKeyword "OR")
      (fun _ => do
        let right ← reader conjunction
        reader (disjunctionFrom (.or left right)))
      (return left) := by
  funext ts
  rw [reader, disjunctionFrom]
  split
  · rename_i hword
    rw [perhaps_none hword]
    rfl
  · rename_i word hword
    rw [perhaps_some hword]
    refine plain_bind fun right => ?_
    exact plain_bind_ok fun whole => rfl

-- ── Groups, order and limit ─────────────────────────────────────────────────

theorem reader_groupKey : reader groupKey = (do
    let name ← reader columnName
    return ⟨name.1, name.2⟩) := by
  funext ts
  rw [reader, groupKey]
  exact plain_bind fun name => rfl

/-- A key to sort by ascends unless it says otherwise. -/
theorem reader_orderKey : reader orderKey = (do
    let name ← reader columnName
    perhaps (·.isKeyword "DESC")
      (fun _ => return ⟨name.1, name.2, .descending⟩)
      (perhaps (·.isKeyword "ASC")
        (fun _ => return ⟨name.1, name.2, .ascending⟩)
        (return ⟨name.1, name.2, .ascending⟩))) := by
  funext ts
  rw [reader, orderKey]
  refine plain_bind fun name => ?_
  show Except.ok ((⟨name.value.1, name.value.2, (direction name.rest).value⟩ : OrderKey),
    (direction name.rest).rest) = _
  rw [direction]
  split
  · rename_i word hword
    rw [perhaps_some hword]
    rfl
  · rename_i hdesc
    rw [perhaps_none hdesc]
    split
    · rename_i word hword
      rw [perhaps_some hword]
      rfl
    · rename_i hasc
      rw [perhaps_none hasc]
      rfl

/-- The count that a token is. -/
def countOf (t : Token) : Except Expectation Nat :=
  match t.kind, Number.countOfText? t.text with
  | .number, some n => .ok n
  | _, _ => .error .limitCount

theorem reader_limitCount : reader limitCount = take countOf .limitCount := by
  funext ts
  cases ts with
  | nil => rfl
  | cons t ts =>
      rw [reader, limitCount, take, countOf]
      generalize t.kind = k
      generalize Number.countOfText? t.text = count
      cases k <;> cases count <;> rfl

-- ── Queries ─────────────────────────────────────────────────────────────────

/-- A query is read clause by clause. -/
theorem reader_query : reader query = (do
    let _ ← reader (keyword "SELECT")
    let columns ← reader columns
    let _ ← reader (keyword "FROM")
    let table ← reader table
    let joins ← reader joins
    let filter ← reader (clause? "WHERE" disjunction)
    let groupBy ← reader (clause? "GROUP" (afterBy (list groupKey)))
    let having ← reader (clause? "HAVING" disjunction)
    let orderBy ← reader (clause? "ORDER" (afterBy (list orderKey)))
    let limit ← reader (clause? "LIMIT" limitCount)
    return {
      columns := columns
      source := table.1
      indexHint := table.2
      joins := joins
      filter := filter
      groupBy := groupBy.getD []
      having := having
      orderBy := orderBy.getD []
      limit := limit }) := by
  funext ts
  rw [reader, query]
  exact plain_bind fun word => plain_bind fun columns => plain_bind fun fromWord =>
    plain_bind fun table => plain_bind fun joins => plain_bind fun filter =>
    plain_bind fun groupBy => plain_bind fun having => plain_bind fun orderBy =>
    plain_bind fun limit => rfl

end Grammar

end DocQuery
