import DocQuery.Proofs.Statement.Names

/-!
# Every call of a query is written by its tokens

A query makes the calls that it selects, those that its conditions read, and those that stand
among the arguments of a call that it makes (`Select.Calls`). The rules of the grammar have one
way to write a call, wherever it stands. So what that rule says of a call holds of every call of a
query (`callWithin_of_ofText`).
-/

namespace DocQuery

/-- The query makes the call: it selects it, one of its conditions reads it, or it is an argument
    of a call that the query makes. -/
inductive Select.Calls (s : Select) : Call → Prop where
  | selected {call : Call} (mem : call ∈ s.selectedCalls) : s.Calls call
  | filter {c : Condition} {call : Call} (condition : s.filter = some c) (mem : call ∈ c.calls) :
      s.Calls call
  | having {c : Condition} {call : Call} (condition : s.having = some c) (mem : call ∈ c.calls) :
      s.Calls call
  | argument {call : Call} {name : String} {arguments : List Argument} (outer : s.Calls call)
      (mem : .call name arguments ∈ call.arguments) : s.Calls ⟨name, arguments⟩

namespace Grammar

/-- Some of the tokens, one after the other, write the call. -/
def CallWithin (ts : List Token) (call : Call) : Prop :=
  ∃ us rest, Consumes ts us ∧ WritesCall us call rest

variable {ts us rest : List Token} {call : Call} {name : String} {arguments : List Argument}

/-- What is within the rest is within the whole. -/
theorem CallWithin.behind (h : CallWithin us call) (hts : Consumes ts us) :
    CallWithin ts call := by
  obtain ⟨vs, rest, hvs, hcall⟩ := h
  exact ⟨vs, rest, hts.trans hvs, hcall⟩

theorem WritesCall.within (h : WritesCall ts call rest) : CallWithin ts call :=
  ⟨ts, rest, .refl ts, h⟩

-- ── Arguments ───────────────────────────────────────────────────────────────

/-- A call that is written as an argument is within its tokens. -/
theorem WritesArgument.within (h : WritesArgument ts (.call name arguments) rest) :
    CallWithin ts ⟨name, arguments⟩ := by
  cases h with
  | call hname hparen harguments => exact (WritesCall.call hname hparen harguments).within

theorem WritesMoreArguments.within {ts rest : List Token} {args : List Argument} :
    WritesMoreArguments ts args rest → .call name arguments ∈ args →
      CallWithin ts ⟨name, arguments⟩
  | .close _, hmem => nomatch hmem
  | .comma hsign harg hmore, hmem => by
      rcases List.mem_cons.mp hmem with rfl | hmem
      · exact harg.within.behind (.of_kind hsign (by decide))
      · exact (hmore.within hmem).behind
          ((Consumes.of_kind hsign (by decide)).trans harg.consumes)

/-- A call among the arguments is within their tokens. -/
theorem WritesArguments.within {args : List Argument} (h : WritesArguments ts args rest)
    (hmem : .call name arguments ∈ args) : CallWithin ts ⟨name, arguments⟩ := by
  cases h with
  | none _ => exact nomatch hmem
  | some harg hmore =>
      rcases List.mem_cons.mp hmem with rfl | hmem
      · exact harg.within
      · exact (hmore.within hmem).behind harg.consumes

/-- A call in an argument of a call within the tokens is within them, too. -/
theorem CallWithin.argument (h : CallWithin ts call)
    (hmem : .call name arguments ∈ call.arguments) : CallWithin ts ⟨name, arguments⟩ := by
  obtain ⟨us, rest, hus, hcall⟩ := h
  cases hcall with
  | call hname hparen harguments =>
      have hbehind := hname.consumes.trans (.of_kind hparen (by decide))
      exact (harguments.within hmem).behind (hus.trans hbehind)

-- ── Columns ─────────────────────────────────────────────────────────────────

/-- The call of a column is within its tokens. -/
theorem WritesColumn.within {column : Column} (h : WritesColumn ts column rest)
    (hcall : column.call? = some call) : CallWithin ts call := by
  cases h with
  | field _ _ | tableStar _ _ _ => exact nomatch hcall
  | call hwrites _ =>
      rw [← Option.some.inj hcall]
      exact hwrites.within

/-- Every item of a list is written behind a front of its tokens. -/
theorem WritesList.exists_item {α : Type} {separates : Token → Prop}
    {Item : List Token → α → List Token → Prop} {xs : List α}
    (hsep : ∀ t us, separates t → Consumes (t :: us) us)
    (hitem : ∀ ts x rest, Item ts x rest → Consumes ts rest)
    (h : WritesList separates Item ts xs rest) {x : α} (hx : x ∈ xs) :
    ∃ us vs, Consumes ts us ∧ Item us x vs := by
  induction h with
  | one hone =>
      rw [List.mem_singleton.mp hx]
      exact ⟨_, _, .refl _, hone⟩
  | cons hfirst hsign _ ih =>
      rcases List.mem_cons.mp hx with rfl | hx
      · exact ⟨_, _, .refl _, hfirst⟩
      · obtain ⟨us, vs, hus, hvs⟩ := ih hx
        exact ⟨us, vs, (hitem _ _ _ hfirst).trans ((hsep _ _ hsign).trans hus), hvs⟩

theorem WritesColumns.within {columns : List Column} (h : WritesColumns ts columns rest)
    (hcall : call ∈ columns.filterMap Column.call?) : CallWithin ts call := by
  cases h with
  | star _ => exact nomatch hcall
  | list hlist =>
      obtain ⟨column, hcolumn, hcall⟩ := List.mem_filterMap.mp hcall
      obtain ⟨us, vs, hus, hwrites⟩ := hlist.exists_item
        (fun _ _ hsign => .of_kind hsign (by decide)) (fun _ _ _ => WritesColumn.consumes) hcolumn
      exact (hwrites.within hcall).behind hus

-- ── Conditions ──────────────────────────────────────────────────────────────

theorem WritesSubject.within {subject : Subject} (h : WritesSubject ts subject rest)
    (hcall : subject.call? = some call) : CallWithin ts call := by
  cases h with
  | column _ => exact nomatch hcall
  | call hwrites =>
      rw [← Option.some.inj hcall]
      exact hwrites.within

/-- A call of one of two conditions is a call of the first or of the second. -/
theorem mem_calls_append {left right : Condition}
    (h : call ∈ (left.comparisons ++ right.comparisons).filterMap (·.subject.call?)) :
    call ∈ left.calls ∨ call ∈ right.calls := by
  rw [List.filterMap_append] at h
  exact List.mem_append.mp h

mutual

/-- The calls of a test are within its tokens, by recursion over its parentheses. -/
theorem WritesTest.within {ts rest : List Token} {c : Condition} :
    WritesTest ts c rest → call ∈ c.calls → CallWithin ts call
  | .compare hsubject _ _ _, hmem => by
      obtain ⟨cmp, hcmp, hcall⟩ := List.mem_filterMap.mp hmem
      rw [List.mem_singleton.mp hcmp] at hcall
      exact hsubject.within hcall
  | .parens hparen h _, hmem => (h.within hmem).behind (.of_kind hparen (by decide))

/-- The calls of a conjunction are within its tokens. -/
theorem WritesConjunction.within {ts rest : List Token} {c : Condition} :
    WritesConjunction ts c rest → call ∈ c.calls → CallWithin ts call
  | .test h, hmem => h.within hmem
  | .and hleft hword hright, hmem => by
      rcases mem_calls_append hmem with hmem | hmem
      · exact hleft.within hmem
      · exact (hright.within hmem).behind (hleft.consumes.trans (.of_keyword hword))

theorem WritesDisjunction.within {ts rest : List Token} {c : Condition} :
    WritesDisjunction ts c rest → call ∈ c.calls → CallWithin ts call
  | .conjunction h, hmem => h.within hmem
  | .or hleft hword hright, hmem => by
      rcases mem_calls_append hmem with hmem | hmem
      · exact hleft.within hmem
      · exact (hright.within hmem).behind (hleft.consumes.trans (.of_keyword hword))

end

/-- The calls of a condition are within the clause that holds it. -/
theorem WritesClause.within {word : String} {c : Condition}
    (h : WritesClause word WritesDisjunction ts (some c) rest) (hmem : call ∈ c.calls) :
    CallWithin ts call := by
  cases h with
  | present hword hc => exact (hc.within hmem).behind (.of_keyword hword)

-- ── Queries ─────────────────────────────────────────────────────────────────

/-- Every call that a query makes is written by its tokens. -/
theorem WritesQuery.callWithin {s : Select} (h : WritesQuery ts s rest) (hcall : s.Calls call) :
    CallWithin ts call := by
  cases h with
  | select hword hcolumns hfrom htable hjoins hfilter hgroup hhaving _ _ =>
      have hjoined := hcolumns.consumes.trans ((Consumes.of_keyword hfrom).trans
        (htable.consumes.trans hjoins.consumes))
      have hgrouped := (hfilter.consumes fun _ _ _ => WritesDisjunction.consumes).trans
        (hgroup.consumes fun _ _ _ hby => hby.consumes fun _ _ _ hlist =>
          hlist.consumes (fun _ _ hsign => .of_kind hsign (by decide))
            fun _ _ _ => WritesGroupKey.consumes)
      induction hcall with
      | selected hmem => exact (hcolumns.within hmem).behind (.of_keyword hword)
      | filter hc hmem =>
          subst hc
          exact (hfilter.within hmem).behind ((Consumes.of_keyword hword).trans hjoined)
      | having hc hmem =>
          subst hc
          exact (hhaving.within hmem).behind
            ((Consumes.of_keyword hword).trans (hjoined.trans hgrouped))
      | argument _ hmem ih => exact ih.argument hmem

end Grammar

namespace Select

variable {s : Select} {call : Call}

/-- What is selected or tested is called. -/
theorem Calls.of_mem (h : call ∈ s.selectedCalls ++ s.havingCalls) : s.Calls call := by
  rcases List.mem_append.mp h with h | h
  · exact .selected h
  · rw [havingCalls] at h
    cases hhaving : s.having with
    | none =>
        rw [hhaving] at h
        exact nomatch h
    | some c =>
        rw [hhaving] at h
        exact .having hhaving h

/-- Every call of the query that a text writes is written by tokens of the text. -/
theorem callWithin_of_ofText {source : String} (h : ofText source = .ok s)
    (hcall : s.Calls call) : ∃ ts, Token.ofText source = .ok ts ∧ Grammar.CallWithin ts call := by
  obtain ⟨ts, rest, hts, hwrites⟩ := exists_tokens_of_ofText h
  exact ⟨ts, hts, hwrites.callWithin hcall⟩

end Select

end DocQuery
