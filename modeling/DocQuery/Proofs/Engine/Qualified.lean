import DocQuery.Proofs.Engine.Determined

/-!
# Qualified names in accepted queries

A query may name a table in its columns, the arguments of its calls, the equalities of its joins,
its conditions, its group keys and its order. The check compares these names with the tables that
are read, in every one of the places but the arguments of calls: of what an accepted query names,
everything is a table that it reads, or is the qualifier in an argument (`mentions_of_check`).

Such a qualifier is not told from the right one in a query on one table: the rows have bare names,
so the argument reads the field of that table (`misread_mention`). Joined rows have qualified names
only, and there it reads null (`accepted_mentions`).
-/

namespace DocQuery

-- ── The tables that a query names ───────────────────────────────────────────

mutual

/-- The tables that an argument names, at any depth. -/
def Argument.mentions : Argument → List String
  | .star => []
  | .tableStar table => [table]
  | .column table _ => table.toList
  | .call _ arguments => Argument.mentionsAll arguments

/-- The tables that arguments name. -/
def Argument.mentionsAll : List Argument → List String
  | [] => []
  | a :: as => a.mentions ++ Argument.mentionsAll as

end

/-- The tables that the arguments of a call name. -/
def Call.mentions (call : Call) : List String :=
  Argument.mentionsAll call.arguments

/-- The tables that a selected column names. -/
def Column.mentions : Column → List String
  | .star => []
  | .tableStar table => [table]
  | .field table _ _ => table.toList
  | .call c _ => c.mentions

/-- The tables that the subject of a comparison names. -/
def Subject.mentions : Subject → List String
  | .column table _ => table.toList
  | .call c => c.mentions

/-- The tables that a condition names. -/
def Condition.mentions (c : Condition) : List String :=
  c.comparisons.flatMap (·.subject.mentions)

/-- The tables that a query names anywhere, other than those that it reads. -/
def Select.mentions (s : Select) : List String :=
  s.columns.flatMap Column.mentions
    ++ s.joins.flatMap (fun j => j.conditions.flatMap fun c => [c.leftTable, c.rightTable])
    ++ s.filter.toList.flatMap Condition.mentions ++ s.having.toList.flatMap Condition.mentions
    ++ s.groupBy.flatMap (·.table.toList) ++ s.orderBy.flatMap (·.table.toList)

/-- The table is the qualifier in the argument of a selected call, or of one that the condition on
    groups reads. -/
def Select.QualifiesArgument (s : Select) (table name : String) : Prop :=
  ∃ call ∈ s.selectedCalls ++ s.havingCalls, call.arguments = [.column (some table) name]

/-- A call that a function takes names no table but in its one argument. -/
theorem Call.arguments_of_mem_mentions {call : Call} {resolved : Function × Source} {table : String}
    (h : call.resolve = .ok resolved) (htable : table ∈ call.mentions) :
    ∃ name, call.arguments = [.column (some table) name] := by
  rw [resolve] at h
  rw [mentions] at htable
  split at h
  · cases h
  · split at h
    · rename_i qualifier name hargs
      rw [hargs] at htable ⊢
      obtain rfl : qualifier = some table := by
        simpa [Argument.mentionsAll, Argument.mentions, Option.mem_toList] using htable
      exact ⟨name, rfl⟩
    · rename_i hargs
      rw [hargs] at htable
      cases htable
    · cases h
    · cases h

/-- What a condition names is the qualifier of a column that it compares, or is in a call. -/
theorem Condition.mem_mentions {c : Condition} {table : String} (h : table ∈ c.mentions) :
    table ∈ c.comparisons.filterMap (·.subject.table?) ∨
      ∃ call ∈ c.calls, table ∈ call.mentions := by
  obtain ⟨cmp, hcmp, htable⟩ := List.mem_flatMap.mp h
  cases hsubject : cmp.subject with
  | column qualifier field =>
      rw [hsubject] at htable
      obtain rfl := Option.mem_toList.mp htable
      exact Or.inl (List.mem_filterMap.mpr ⟨cmp, hcmp, by rw [hsubject]; rfl⟩)
  | call call =>
      rw [hsubject] at htable
      exact Or.inr ⟨call, List.mem_filterMap.mpr ⟨cmp, hcmp, by rw [hsubject]; rfl⟩, htable⟩

theorem Condition.containsCall_of_mem_calls {c : Condition} {call : Call} (h : call ∈ c.calls) :
    c.containsCall = true := by
  obtain ⟨cmp, hcmp, hcall⟩ := List.mem_filterMap.mp h
  exact List.any_eq_true.mpr ⟨cmp, hcmp, by rw [hcall]; rfl⟩

namespace Select

variable {s : Select} {t : String}

/-- What is named in a place other than the argument of a call is compared with the tables. -/
theorem mem_qualifiers_iff : t ∈ s.qualifiers ↔
    t ∈ s.columns.filterMap Column.qualifier? ∨
      t ∈ s.joins.flatMap (fun j => j.conditions.flatMap fun c => [c.leftTable, c.rightTable]) ∨
      (∃ c, s.filter = some c ∧ t ∈ c.comparisons.filterMap (·.subject.table?)) ∨
      (∃ c, s.having = some c ∧ t ∈ c.comparisons.filterMap (·.subject.table?)) ∨
      t ∈ s.groupBy.filterMap (·.table) ∨ t ∈ s.orderBy.filterMap (·.table) := by
  have hcondition : ∀ c : Option Condition,
      t ∈ (c.map fun c => c.comparisons.filterMap (·.subject.table?)).getD []
        ↔ ∃ d, c = some d ∧ t ∈ d.comparisons.filterMap (·.subject.table?) := by
    intro c
    cases c with
    | none => simp
    | some d => simp
  simp only [qualifiers, List.mem_append, hcondition, or_assoc]

/-- **What an accepted query names is read**, but for qualifiers in the arguments of calls. -/
theorem mentions_of_check (hcheck : s.check = .ok ()) (ht : t ∈ s.mentions) :
    t ∈ s.tables ∨ ∃ name, s.QualifiesArgument t name := by
  have hchecked := check_eq_ok hcheck
  have hcall : ∀ call ∈ s.selectedCalls ++ s.havingCalls, t ∈ call.mentions →
      ∃ name, s.QualifiesArgument t name := by
    intro call hmem htable
    obtain ⟨resolved, hresolved⟩ := resolve_of_check hcheck hmem
    obtain ⟨name, hargs⟩ := Call.arguments_of_mem_mentions hresolved htable
    exact ⟨name, call, hmem, hargs⟩
  have hknown := hchecked.qualifiers t
  rw [mem_qualifiers_iff] at hknown
  simp only [mentions, List.mem_append, or_assoc] at ht
  rcases ht with ht | ht | ht | ht | ht | ht
  · obtain ⟨column, hcolumn, ht⟩ := List.mem_flatMap.mp ht
    cases column with
    | star => exact nomatch ht
    | tableStar table =>
        obtain rfl := List.mem_singleton.mp ht
        exact Or.inl (hknown (Or.inl (List.mem_filterMap.mpr ⟨_, hcolumn, rfl⟩)))
    | field table name label =>
        obtain rfl := Option.mem_toList.mp ht
        exact Or.inl (hknown (Or.inl (List.mem_filterMap.mpr ⟨_, hcolumn, rfl⟩)))
    | call call label =>
        refine Or.inr (hcall call (List.mem_append_left _ ?_) ht)
        exact List.mem_filterMap.mpr ⟨_, hcolumn, rfl⟩
  · exact Or.inl (hknown (Or.inr (Or.inl ht)))
  · obtain ⟨c, hc, ht⟩ := List.mem_flatMap.mp ht
    have hfilter := Option.mem_toList.mp hc
    rcases Condition.mem_mentions ht with hcolumn | ⟨call, hmem, -⟩
    · exact Or.inl (hknown (Or.inr (Or.inr (Or.inl ⟨c, hfilter, hcolumn⟩))))
    · -- a condition on rows has no call
      have hno := hchecked.noCall
      rw [hfilter, Option.any_some, Condition.containsCall_of_mem_calls hmem] at hno
      exact nomatch hno
  · obtain ⟨c, hc, ht⟩ := List.mem_flatMap.mp ht
    have hhaving := Option.mem_toList.mp hc
    rcases Condition.mem_mentions ht with hcolumn | ⟨call, hmem, ht⟩
    · exact Or.inl (hknown (Or.inr (Or.inr (Or.inr (Or.inl ⟨c, hhaving, hcolumn⟩)))))
    · refine Or.inr (hcall call (List.mem_append_right _ ?_) ht)
      rw [havingCalls, hhaving]
      exact hmem
  · obtain ⟨key, hkey, ht⟩ := List.mem_flatMap.mp ht
    have hmem : t ∈ s.groupBy.filterMap (·.table) :=
      List.mem_filterMap.mpr ⟨key, hkey, Option.mem_toList.mp ht⟩
    exact Or.inl (hknown (Or.inr (Or.inr (Or.inr (Or.inr (Or.inl hmem))))))
  · obtain ⟨key, hkey, ht⟩ := List.mem_flatMap.mp ht
    have hmem : t ∈ s.orderBy.filterMap (·.table) :=
      List.mem_filterMap.mpr ⟨key, hkey, Option.mem_toList.mp ht⟩
    exact Or.inl (hknown (Or.inr (Or.inr (Or.inr (Or.inr (Or.inr hmem))))))

end Select

-- ── Arguments are words ─────────────────────────────────────────────────────

theorem Grammar.WritesCall.inWords {ts rest : List Token} {call : Call}
    (h : WritesCall ts call rest) (hw : Words ts) : ∀ a ∈ call.arguments, a.InWords := by
  cases h with
  | call hname _ hargs => exact hargs.inWords (hw.rest hname.consumes).tail

namespace Select

variable {s : Select} {t name : String}

/-- What a text writes as an argument of a call, selected or in the condition on groups, is named by
    words. -/
theorem arguments_inWords_of_ofText {text : String} (htext : ofText text = .ok s) {call : Call}
    (hcall : call ∈ s.selectedCalls ++ s.havingCalls) : ∀ a ∈ call.arguments, a.InWords := by
  obtain ⟨ts, hts, us, rest, hus, hwrites⟩ := callWithin_of_ofText htext (.of_mem hcall)
  exact hwrites.inWords ((words_ofText hts).rest hus)

/-- What a text writes as a qualified argument is made of words. -/
theorem isWordName_of_qualifiesArgument {text : String} (htext : ofText text = .ok s)
    (h : s.QualifiesArgument t name) : IsWord t ∧ IsWord name := by
  obtain ⟨call, hcall, hargs⟩ := h
  have harg : Argument.column (some t) name ∈ call.arguments := by
    rw [hargs]
    exact List.mem_cons_self
  have hword : IsWordName (some t) name := arguments_inWords_of_ofText htext hcall _ harg
  exact ⟨hword.1 t rfl, hword.2⟩

-- ── What unknown qualifiers read ────────────────────────────────────────────

/-- In a query on one table an unknown qualifier reads the field of that table, and in a query with
    joins it reads null. -/
theorem resolve_unknown {text : String} {schema : Schema} {store : Store} {p : Plan}
    {rows : List Row} (htext : ofText text = .ok s) (hnodup : s.tables.Nodup)
    (hplan : s.plan schema = .ok p)
    (hstore : store.Reachable fun d => d.IsJson ∧ d.HasPlainFields)
    (hrows : (p.found store).result = .ok rows) (ht : IsWord t) (hname : IsWord name)
    (hnot : t ∉ s.tables) : ∀ row ∈ rows, row.resolve (some t) name s.source
      = if s.joins.isEmpty then row.resolve (some s.source) name s.source else .null := by
  intro row hrow
  have hjson : store.Reachable Document.IsJson := hstore.mono fun _ h => h.1
  have hfields : store.Reachable Document.HasPlainFields := hstore.mono fun _ h => h.2
  by_cases hjoins : s.joins = []
  · obtain ⟨table, htable, hmem⟩ := mem_of_found_single hplan hjoins hrows hrow
    have hplain := hfields.plain htable row hmem
    rw [hjoins, List.isEmpty_nil, if_pos rfl, hplain.resolve_eq, hplain.resolve_eq]
  · have hplain := (plainNames_ofText htext).tables
    have hwithin := (joinedFrom_of_found hplan hplain hnodup hjson hjoins hrows row hrow).within
    rw [List.isEmpty_eq_false_iff.mpr hjoins, if_neg Bool.false_ne_true,
      hwithin.resolve_eq hname.plain, Option.getD_some, Row.value,
      hwithin.get?_qualify hplain ht.plain hnot]
    rfl

/-- **What an accepted query names is read**, but for qualifiers in the arguments of calls. Such a
    qualifier reads the field of the one table that the query reads, or null if the query reads
    several. -/
theorem accepted_mentions (hcheck : s.check = .ok ()) :
    (∀ t ∈ s.mentions, t ∈ s.tables ∨ ∃ name, s.QualifiesArgument t name) ∧
      ∀ {text : String} {schema : Schema} {store : Store} {p : Plan} {rows : List Row},
        ofText text = .ok s → s.plan schema = .ok p →
        (store.Reachable fun d => d.IsJson ∧ d.HasPlainFields) →
        (p.found store).result = .ok rows →
        ∀ t name, s.QualifiesArgument t name → t ∉ s.tables → ∀ row ∈ rows,
          row.resolve (some t) name s.source
            = if s.joins.isEmpty then row.resolve (some s.source) name s.source else .null := by
  refine ⟨fun t ht => mentions_of_check hcheck ht, ?_⟩
  intro text schema store p rows htext hplan hstore hrows t name hqualifies hnot
  obtain ⟨ht, hname⟩ := isWordName_of_qualifiesArgument htext hqualifies
  exact resolve_unknown htext (check_eq_ok hcheck).nodup hplan hstore hrows ht hname hnot

/-- The sum of a field of orders, over users. -/
def sampleMisread : Select :=
  { columns := [.call ⟨"SUM", [.column (some "orders") "age"]⟩ (some "total")]
    source := "users"
    indexHint := none
    joins := []
    filter := none
    groupBy := []
    having := none
    orderBy := []
    limit := none }

theorem accepted_mentions_sample :
    sampleMisread.check = .ok () ∧
      (∀ t ∈ sampleMisread.mentions, t ∈ sampleMisread.tables ∨
        ∃ name, sampleMisread.QualifiesArgument t name) ∧
      ∃ p rows, sampleMisread.plan Store.sample.schema = .ok p ∧
        (p.found Store.sample).result = .ok rows ∧ rows.length = 3 ∧
        ∀ row ∈ rows, row.resolve (some "orders") "age" "users"
          = row.resolve (some "users") "age" "users" := by
  have hcheck : sampleMisread.check = .ok () := eq_ok_of_toOption (by decide +kernel)
  have htext : ofText "SELECT SUM(orders.age) AS total FROM users" = .ok sampleMisread :=
    eq_ok_of_toOption (by decide +kernel)
  have hcount : (Outcome.ofChecked (sampleMisread.plan Store.sample.schema) >>= fun p =>
      (p.found Store.sample).result.map List.length) = .ok 3 :=
    eq_ok_of_toOption (by decide +kernel)
  obtain ⟨p, hplan, hcount⟩ := bind_eq_ok_iff.mp hcount
  have hplan := Outcome.ofChecked_eq_ok_iff.mp hplan
  obtain ⟨rows, hrows, hcount⟩ := map_eq_ok_iff.mp hcount
  obtain ⟨hmentions, hread⟩ := accepted_mentions hcheck
  refine ⟨hcheck, hmentions, p, rows, hplan, hrows, hcount, ?_⟩
  exact hread htext hplan Store.reachable_sample hrows "orders" "age"
    ⟨_, List.mem_cons_self, rfl⟩ (by decide)

/-- The sum is that of the users' ages, though the query is about orders, which it does not
    read. -/
theorem misread_mention :
    ofText "SELECT SUM(orders.age) AS total FROM users" = .ok sampleMisread ∧
      sampleMisread.check = .ok () ∧ "orders" ∈ sampleMisread.mentions ∧
      "orders" ∉ sampleMisread.tables ∧
      (Engine.sample.execute Database.sample "SELECT SUM(orders.age) AS total FROM users").1
        = .ok [Keyed.ofList [("total", .number (.ofNat 58))]] :=
  ⟨eq_ok_of_toOption (by decide +kernel), eq_ok_of_toOption (by decide +kernel), by decide,
    by decide, eq_ok_of_toOption (by decide +kernel)⟩

end Select

end DocQuery
