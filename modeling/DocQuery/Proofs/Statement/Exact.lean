import DocQuery.Proofs.Statement.Completeness
import DocQuery.Proofs.Statement.Spelling

/-!
# The grammar is what is read

The tokens of a text, which end in their only end of input, are read as a statement just when
they write it. As reading gives at most one statement, so does writing: the grammar is not
ambiguous. Main statements:

* `WritesStatement.ofTokens_eq` — what is written is read;
* `writesStatement_of_ofTokens` — what is read is written;
* `ofTokens_eq_ok_iff_writes` — both, and that a statement is read back from its spelling.
-/

namespace DocQuery

namespace Grammar

variable {ts : List Token} {s : Select}

-- ── The first token ─────────────────────────────────────────────────────────

/-- A query begins with its word, so it is not refused. -/
theorem WritesQuery.refusal?_eq {rest : List Token} (h : WritesQuery ts s rest) :
    Select.refusal? ts = none := by
  cases h with
  | @select word _ _ _ _ _ _ _ _ _ _ _ _ _ _ _ _ _ _ _ hword =>
      have hkind : word.kind ≠ .endOfInput := by
        rw [Token.kind_of_isKeyword hword]
        decide
      simp only [Select.refusal?, List.head?_cons, Option.getD_some, hkind, hword, if_false,
        if_true]

-- ── The end ─────────────────────────────────────────────────────────────────

/-- A statement may be followed by the end of the input. -/
theorem finish_last {last : Token} (hlast : last.kind = .endOfInput) :
    finish [last] = .ok () := by
  rw [finish, kind?_eq_none hlast (by decide)]
  exact if_pos hlast

/-- A statement may be followed by a semicolon and the end. -/
theorem finish_semicolon {sign last : Token} (hsign : sign.kind = .semicolon)
    (hlast : last.kind = .endOfInput) : finish [sign, last] = .ok () := by
  rw [finish, kind?_cons hsign]
  exact if_pos hlast

/-- Where nothing but the last token ends the input, reading ends there, with or without a
    semicolon in front. -/
theorem of_finish_eq_ok {us : List Token} {last : Token} (hus : ∀ t ∈ us, t.kind ≠ .endOfInput)
    (h : finish (us ++ [last]) = .ok ()) :
    us = [] ∨ ∃ sign, us = [sign] ∧ sign.kind = .semicolon := by
  cases us with
  | nil => exact Or.inl rfl
  | cons t us =>
      right
      rw [finish, List.cons_append] at h
      cases hsign : kind? .semicolon (t :: (us ++ [last])) with
      | none =>
          rw [hsign] at h
          dsimp only at h
          rw [if_neg (hus t List.mem_cons_self)] at h
          cases h
      | some sign =>
          rw [hsign] at h
          obtain ⟨hts, hkind⟩ := kind?_eq_some hsign
          obtain ⟨hsame, hrest⟩ := List.cons.inj hts
          rw [← hsame] at hkind
          dsimp only at h
          rw [← hrest] at h
          cases us with
          | nil => exact ⟨_, rfl, hkind⟩
          | cons u us =>
              rw [List.cons_append] at h
              dsimp only at h
              rw [if_neg (hus u (List.mem_cons_of_mem _ List.mem_cons_self))] at h
              cases h

-- ── Statements ──────────────────────────────────────────────────────────────

/-- What the grammar derives is read. -/
theorem WritesStatement.ofTokens_eq (h : WritesStatement ts s) : Select.ofTokens ts = .ok s := by
  have hread : ∀ {rest}, WritesQuery ts s rest → Ends [] rest → finish rest = .ok () →
      Select.ofTokens ts = .ok s := by
    intro rest hquery hends hfinish
    obtain ⟨_, hq⟩ := hquery.takes hends
    have hwhole : whole ts = .ok s := by
      rw [whole]
      exact bind_eq_ok_iff.mpr ⟨_, hq, bind_eq_ok_iff.mpr ⟨(), hfinish, rfl⟩⟩
    rw [Select.ofTokens, hquery.refusal?_eq, hwhole]
    rfl
  cases h with
  | plain hquery hlast =>
      exact hread hquery ⟨_, _, rfl, Or.inr (Or.inl hlast)⟩ (finish_last hlast)
  | semicolon hquery hsign hlast =>
      exact hread hquery ⟨_, _, rfl, Or.inl hsign⟩ (finish_semicolon hsign hlast)

/-- What is left of tokens that end in their only end of input also does. -/
theorem Consumes.exists_append {body rest : List Token} {last : Token}
    (h : Consumes (body ++ [last]) rest) (hlast : last.kind = .endOfInput) :
    ∃ us, rest = us ++ [last] ∧ ∀ t ∈ us, t ∈ body := by
  obtain ⟨front, hts, hfront⟩ := h
  rcases List.append_eq_append_iff.mp hts with ⟨us, hbody, hrest⟩ | ⟨us, hbody, hrest⟩
  · cases us with
    | nil => exact ⟨[], hrest.symm, fun _ ht => (nomatch ht)⟩
    | cons t us =>
        -- the last token would be one of those that were taken
        obtain ⟨rfl, -⟩ := List.cons.inj hrest
        refine absurd hlast (hfront _ ?_)
        rw [hbody]
        exact List.mem_append_right _ List.mem_cons_self
  · refine ⟨us, hrest, ?_⟩
    intro t ht
    rw [hbody]
    exact List.mem_append_right _ ht

/-- What is read is derived by the grammar. -/
theorem writesStatement_of_ofTokens {body : List Token} {last : Token}
    (hlast : last.kind = .endOfInput) (hbody : ∀ t ∈ body, t.kind ≠ .endOfInput)
    (h : Select.ofTokens (body ++ [last]) = .ok s) : WritesStatement (body ++ [last]) s := by
  obtain ⟨q, hq, h⟩ := bind_eq_ok_iff.mp (whole_of_ofTokens h)
  obtain ⟨_, hfinish, h⟩ := bind_eq_ok_iff.mp h
  obtain rfl := Except.ok.inj h
  have hquery : WritesQuery (body ++ [last]) q.value q.rest := derives_query _ q hq
  obtain ⟨us, hrest, hus⟩ := hquery.consumes.exists_append hlast
  rw [hrest] at hfinish hquery
  rcases of_finish_eq_ok (fun t ht => hbody t (hus t ht)) hfinish with rfl | ⟨sign, rfl, hsign⟩
  · exact .plain hquery hlast
  · exact .semicolon hquery hsign hlast

end Grammar

namespace Select

open Grammar

/-- **Reading is the grammar.** Tokens whose only end of input is the last are read as a
    statement just when they write it. They write one statement at most, and that is read back
    from its own spelling. -/
theorem ofTokens_eq_ok_iff_writes {body : List Token} {last : Token}
    (hlast : last.kind = .endOfInput) (hbody : ∀ t ∈ body, t.kind ≠ .endOfInput) :
    (∀ s, ofTokens (body ++ [last]) = .ok s ↔ WritesStatement (body ++ [last]) s) ∧
      (∀ s s', WritesStatement (body ++ [last]) s → WritesStatement (body ++ [last]) s' →
        s = s') ∧
      ∀ s, WritesStatement (body ++ [last]) s → ofTokens s.spelling = .ok s := by
  refine ⟨fun s => ⟨writesStatement_of_ofTokens hlast hbody, WritesStatement.ofTokens_eq⟩,
    ?_, fun s hs => hs.spelled.ofTokens_eq⟩
  intro s s' hs hs'
  exact Except.ok.inj (hs.ofTokens_eq.symm.trans hs'.ofTokens_eq)

/-- The tokens of `SELECT * FROM t WHERE a = NULL OR b = TRUE AND c = FALSE;` but the last. -/
def sampleBody : List Token :=
  [⟨.keyword, "SELECT", 0⟩, ⟨.star, "*", 7⟩, ⟨.keyword, "FROM", 9⟩, ⟨.identifier, "t", 14⟩,
   ⟨.keyword, "WHERE", 16⟩, ⟨.identifier, "a", 22⟩, ⟨.operator, "=", 24⟩, ⟨.keyword, "NULL", 26⟩,
   ⟨.keyword, "OR", 31⟩, ⟨.identifier, "b", 34⟩, ⟨.operator, "=", 36⟩, ⟨.keyword, "TRUE", 38⟩,
   ⟨.keyword, "AND", 43⟩, ⟨.identifier, "c", 47⟩, ⟨.operator, "=", 49⟩, ⟨.keyword, "FALSE", 51⟩,
   ⟨.semicolon, ";", 56⟩]

/-- The last one. -/
def sampleEnd : Token :=
  ⟨.endOfInput, "", 57⟩

/-- Their tree, in which `AND` binds tighter. -/
def sampleTree : Select :=
  { columns := [.star]
    source := "t"
    indexHint := none
    joins := []
    filter := some (.or (.compare ⟨.column none "a", .eq, .null⟩)
      (.and (.compare ⟨.column none "b", .eq, .boolean true⟩)
        (.compare ⟨.column none "c", .eq, .boolean false⟩)))
    groupBy := []
    having := none
    orderBy := []
    limit := none }

/-- Without parentheses, `AND` binds tighter than `OR`. -/
theorem ofTokens_eq_ok_iff_writes_sample :
    sampleEnd.kind = .endOfInput ∧ (∀ t ∈ sampleBody, t.kind ≠ .endOfInput) ∧
      ofTokens (sampleBody ++ [sampleEnd]) = .ok sampleTree ∧
      (∀ s, WritesStatement (sampleBody ++ [sampleEnd]) s → sampleTree = s) ∧
      ofTokens sampleTree.spelling = .ok sampleTree := by
  have hlast : sampleEnd.kind = .endOfInput := rfl
  have hbody : ∀ t ∈ sampleBody, t.kind ≠ .endOfInput := by decide
  have hwrites : WritesStatement (sampleBody ++ [sampleEnd]) sampleTree := by
    have hname : ∀ name offset rest, WritesSubject (⟨.identifier, name, offset⟩ :: rest)
        (.column none name) rest := fun _ _ _ => .column (.bare (.identifier rfl))
    exact .semicolon (.select rfl (.star rfl) rfl (.bare (.identifier rfl)) .nil
      (.present rfl (.or (.conjunction (.test (.compare (hname _ _ _) rfl rfl (.null rfl)))) rfl
        (.and (.test (.compare (hname _ _ _) rfl rfl (.true rfl))) rfl
          (.compare (hname _ _ _) rfl rfl (.false rfl)))))
      .absent .absent .absent .absent) rfl rfl
  obtain ⟨hiff, hunique, hspelling⟩ := ofTokens_eq_ok_iff_writes hlast hbody
  exact ⟨hlast, hbody, (hiff _).mpr hwrites, fun s hs => hunique _ s hwrites hs,
    hspelling _ hwrites⟩

end Select

end DocQuery
