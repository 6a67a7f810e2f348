import DocQuery.Proofs.Engine.Prepared
import DocQuery.Proofs.Engine.Sortable
import DocQuery.Proofs.Statement.Names
import Mathlib.Data.List.Induction

/-!
# A joined query filters the product of its tables

The product takes one row of each table and merges them under qualified names. A joined
query holds just those merges that satisfy every equality and the whole condition, whatever
the planner made of them: the condition is dealt out to the tables, and each joined table is
matched in one of three ways. The induction is on the joined tables. Its invariant is that
the rows held are the merges so far that pass what has been tested so far; the frame lemmas
say that a further table changes nothing about a test on the tables before it.
-/

namespace DocQuery

-- ── The product ─────────────────────────────────────────────────────────────

/-- The rows of a table, none if it is missing. -/
def Store.rowsOf (store : Store) (table : String) : List Row :=
  ((store.tables.get? table).map StoredTable.rows).getD []

/-- The merges of each row with each row of a further table. -/
def Store.extend (store : Store) (left : List Row) (table : String) : List Row :=
  left.flatMap fun l => (store.rowsOf table).map fun r => l.merge (r.qualified table)

/-- The merges of one row of each table. -/
def Store.product (store : Store) (source : String) (joined : List String) : List Row :=
  joined.foldl store.extend ((store.rowsOf source).map (Row.qualified source))

/-- The merges that satisfy every equality of the query and its whole condition. -/
def Select.matching (s : Select) (store : Store) : List Row :=
  (store.product s.source (s.joins.map Join.table)).filter fun row =>
    (s.joins.all fun j => j.conditions.all (·.holds row))
      && s.filter.all (·.holds row s.source)

/-- The rows of a table that is there. -/
theorem Store.rowsOf_eq {store : Store} {table : String} {t : StoredTable}
    (ht : store.tables.get? table = some t) : store.rowsOf table = t.rows := by
  rw [rowsOf, ht]
  rfl

/-- A further table extends the product. -/
theorem Store.product_append (store : Store) (source : String) (joined : List String)
    (table : String) : store.product source (joined ++ [table])
      = store.extend (store.product source joined) table := by
  rw [product, product, List.foldl_append]
  rfl

/-- A row of the extended product is one of both merged. -/
theorem Store.mem_extend {store : Store} {left : List Row} {table : String} {row : Row}
    (h : row ∈ store.extend left table) :
    ∃ l ∈ left, ∃ r ∈ store.rowsOf table, row = l.merge (r.qualified table) := by
  obtain ⟨l, hl, hrow⟩ := List.mem_flatMap.mp h
  obtain ⟨r, hr, rfl⟩ := List.mem_map.mp hrow
  exact ⟨l, hl, r, hr, rfl⟩

/-- The rows of the product have the names of their tables. -/
theorem Store.within_product (store : Store) (source : String) (joined : List String) :
    ∀ row ∈ store.product source joined, row.Within (source :: joined) := by
  induction joined using List.reverseRecOn with
  | nil =>
      intro row hrow
      obtain ⟨r, -, rfl⟩ := List.mem_map.mp hrow
      exact Row.within_qualified source r
  | append_singleton joined table ih =>
      intro row hrow
      rw [product_append] at hrow
      obtain ⟨l, hl, r, -, rfl⟩ := mem_extend hrow
      exact (ih l hl).merge table r

-- ── Conditions on some tables ───────────────────────────────────────────────

/-- The condition reads columns of the tables only, and their names have no point. -/
def Condition.Reads (c : Condition) (defaultTable : String) (tables : List String) : Prop :=
  ∀ cmp ∈ c.comparisons, Plain cmp.subject.field ∧
    cmp.subject.table?.getD defaultTable ∈ tables

/-- A condition on other tables says the same once rows of a further table are merged. -/
theorem Condition.Reads.holds_merge {c : Condition} {d t : String} {tables tables' : List String}
    {l r : Row} (hc : c.Reads d tables) (hl : l.Within tables') (htables : ∀ u ∈ tables, Plain u)
    (ht : Plain t) (hnot : t ∉ tables) : c.holds (l.merge (r.qualified t)) d = c.holds l d := by
  refine Condition.holds_congr ?_
  intro cmp hcmp
  obtain ⟨hfield, hmem⟩ := hc cmp hcmp
  have hne : t ≠ cmp.subject.table?.getD d := by
    intro heq
    rw [heq] at hnot
    exact hnot hmem
  rw [(hl.merge t r).resolve_eq hfield, hl.resolve_eq hfield, Row.value, Row.value,
    Row.get?_merge_qualified_of_ne ht (htables _ hmem) hne]

/-- A condition on the further table says of a merge what its filter says of the row. -/
theorem Condition.Reads.holds_toFilter_merge {c : Condition} {d t : String}
    {tables : List String} {l r : Row} (hc : c.Reads d [t]) (hl : l.Within tables)
    (htables : ∀ u ∈ tables, Plain u) (ht : Plain t) (hnot : t ∉ tables) :
    c.toFilter.holds r = c.holds (l.merge (r.qualified t)) d := by
  refine Condition.holds_toFilter_eq ?_
  intro cmp hcmp
  obtain ⟨hfield, hmem⟩ := hc cmp hcmp
  rw [(hl.merge t r).resolve_eq hfield, List.mem_singleton.mp hmem, Row.value, Row.value,
    Row.get?_merge, Row.get?_qualified, hl.get?_qualify htables ht hnot, Option.or_none]

/-- A condition on one table says of its qualified rows what its filter says of the rows. -/
theorem Condition.Reads.holds_toFilter_qualified {c : Condition} {d t : String} {r : Row}
    (hc : c.Reads d [t]) : c.toFilter.holds r = c.holds (r.qualified t) d := by
  refine Condition.holds_toFilter_eq ?_
  intro cmp hcmp
  obtain ⟨hfield, hmem⟩ := hc cmp hcmp
  rw [(Row.within_qualified t r).resolve_eq hfield, List.mem_singleton.mp hmem,
    Row.value_qualified]

/-- A condition on rows that has one table reads that table. -/
theorem Condition.Reads.of_soleTable? {c : Condition} {d t : String} {tables : List String}
    (hc : c.Reads d tables) (h : c.soleTable? d = some t) : c.Reads d [t] := by
  intro cmp hcmp
  refine ⟨(hc cmp hcmp).1, List.mem_singleton.mpr ?_⟩
  have hall : ∀ u ∈ c.tablesRead d, u = t := by
    rw [soleTable?] at h
    split at h
    · exact nomatch h
    · rename_i u us heq
      split at h
      · rename_i hsame
        rw [heq, ← Option.some.inj h]
        intro v hv
        rcases List.mem_cons.mp hv with rfl | hv
        · rfl
        · exact beq_iff_eq.mp (List.all_eq_true.mp hsame v hv)
      · exact nomatch h
  exact hall _ (List.mem_map.mpr ⟨cmp, hcmp, rfl⟩)

/-- The sole table of a condition is one that it reads. -/
theorem Condition.mem_of_soleTable? {c : Condition} {d t : String} {tables : List String}
    (hc : c.Reads d tables) (h : c.soleTable? d = some t) : t ∈ tables := by
  have hread := hc.of_soleTable? h
  rw [soleTable?] at h
  split at h
  · exact nomatch h
  · rename_i u us heq
    have hmem : u ∈ c.tablesRead d := by
      rw [heq]
      exact List.mem_cons_self
    obtain ⟨cmp, hcmp, -⟩ := List.mem_map.mp hmem
    rw [← List.mem_singleton.mp (hread cmp hcmp).2]
    exact (hc cmp hcmp).2

-- ── Equalities ──────────────────────────────────────────────────────────────

namespace JoinCondition

/-- An equality holds from either side. -/
theorem holds_flipped (c : JoinCondition) (row : Row) : c.flipped.holds row = c.holds row := by
  unfold holds
  dsimp only [flipped]
  cases row.get? (qualify c.rightTable c.rightField) with
  | none => cases row.get? (qualify c.leftTable c.leftField) <;> rfl
  | some r =>
      cases row.get? (qualify c.leftTable c.leftField) with
      | none => rfl
      | some l =>
          show (!r.isNull && r.equal l) = (!l.isNull && l.equal r)
          rw [Value.equal_comm r l]
          cases h : l.equal r with
          | false => rw [Bool.and_false, Bool.and_false]
          | true => rw [Value.isNull_eq_of_equal h]

/-- Facing a table is to be turned or not. -/
theorem facing_eq_or (c : JoinCondition) (table : String) :
    c.facing table = c ∨ c.facing table = c.flipped := by
  rw [facing]
  split
  · exact Or.inr rfl
  · exact Or.inl rfl

/-- To face a table changes nothing about where an equality holds. -/
theorem holds_facing (c : JoinCondition) (table : String) (row : Row) :
    (c.facing table).holds row = c.holds row := by
  rcases facing_eq_or c table with heq | heq
  · rw [heq]
  · rw [heq]
    exact holds_flipped c row

/-- An equality of other tables holds just as before once rows of a further table are
    merged. -/
theorem holds_merge {c : JoinCondition} {l r : Row} {t : String} (hl : Plain c.leftTable)
    (hr : Plain c.rightTable) (ht : Plain t) (hlt : t ≠ c.leftTable) (hrt : t ≠ c.rightTable) :
    c.holds (l.merge (r.qualified t)) = c.holds l := by
  rw [holds, holds, Row.get?_merge_qualified_of_ne ht hl hlt,
    Row.get?_merge_qualified_of_ne ht hr hrt]

end JoinCondition

-- ── Queries that read well ──────────────────────────────────────────────────

/-- The tables of the query differ and have no point in their names, and its condition on
    rows reads columns of these tables, of plain names, only. -/
structure Select.Readable (s : Select) : Prop where
  plain : ∀ t ∈ s.tables, Plain t
  nodup : s.tables.Nodup
  reads : ∀ c ∈ s.conjuncts, c.Reads s.source s.tables

/-- A query with plain names that passes the check reads well. -/
theorem Select.Checked.readable {s : Select} (h : s.Checked) (hnames : s.PlainNames) :
    s.Readable := by
  refine ⟨hnames.tables, h.nodup, ?_⟩
  intro c hc cmp hcmp
  obtain ⟨w, hw, hcw⟩ := mem_conjuncts hc
  have hmem := Condition.mem_comparisons_of_mem_conjuncts hcw cmp hcmp
  have hplain := hnames.filter w hw cmp hmem
  obtain ⟨table, field, hsubject, htable⟩ := h.exists_column hw hmem
  rw [hsubject] at hplain ⊢
  exact ⟨hplain.2, htable⟩

/-- Going over the items that pass a test. -/
theorem flatMap_filter {α β : Type} (l : List α) (p : α → Bool) (f : α → List β) :
    (l.filter p).flatMap f = l.flatMap fun x => if p x = true then f x else [] := by
  induction l with
  | nil => rfl
  | cons x xs ih =>
      cases hp : p x with
      | false => rw [List.filter_cons_of_neg (by simp [hp]), ih, List.flatMap_cons, hp]; rfl
      | true => rw [List.filter_cons_of_pos hp, List.flatMap_cons, ih, List.flatMap_cons, hp]; rfl

namespace Select

variable {s : Select} {store : Store} {done : List Join}

/-- What has been tested of a row once some joins are done. -/
def passes (s : Select) (done : List Join) (row : Row) : Bool :=
  s.sourceConjuncts.all (·.holds row s.source)
    && done.all fun j => (s.joinedConjuncts j.table).all (·.holds row s.source)
      && j.conditions.all (·.holds row)

/-- With the conjuncts on several tables, all joins done have tested every equality and the
    whole condition. -/
theorem passes_joins (hs : s.Readable) (row : Row) :
    (s.passes s.joins row && s.crossConjuncts.all (·.holds row s.source))
      = ((s.joins.all fun j => j.conditions.all (·.holds row))
          && s.filter.all (·.holds row s.source)) := by
  rw [← all_holds_conjuncts, Bool.eq_iff_iff]
  simp only [passes, Bool.and_eq_true, List.all_eq_true]
  constructor
  · rintro ⟨⟨hsource, hjoins⟩, hcross⟩
    refine ⟨fun j hj => (hjoins j hj).2, ?_⟩
    intro c hc
    -- each conjunct was dealt out to one of the three
    cases hsole : c.soleTable? s.source with
    | none => exact hcross c (List.mem_filter.mpr ⟨hc, by rw [hsole]; rfl⟩)
    | some t =>
        by_cases ht : t = s.source
        · exact hsource c (List.mem_filter.mpr ⟨hc, by rw [hsole, ht, beq_self_eq_true]⟩)
        · have hmem := Condition.mem_of_soleTable? (hs.reads c hc) hsole
          rcases List.mem_cons.mp hmem with heq | hmem
          · exact absurd heq ht
          · obtain ⟨j, hj, rfl⟩ := List.mem_map.mp hmem
            refine (hjoins j hj).1 c (List.mem_filter.mpr ⟨hc, ?_⟩)
            simp [hsole, ht]
  · rintro ⟨hon, hall⟩
    refine ⟨⟨fun c hc => hall c (List.mem_filter.mp hc).1, ?_⟩,
      fun c hc => hall c (List.mem_filter.mp hc).1⟩
    intro j hj
    exact ⟨fun c hc => hall c (List.mem_filter.mp hc).1, hon j hj⟩

/-- The rows held once some joins are done: the merges so far that pass what has been
    tested, and no equality tested so far is on a table still to come. -/
structure Held (s : Select) (store : Store) (done : List Join) (held : List Row) : Prop where
  perm : held.Perm ((store.product s.source (done.map Join.table)).filter (s.passes done))
  on : ∀ j ∈ done, ∀ c ∈ j.conditions,
    c.leftTable ∈ s.source :: done.map Join.table ∧ c.rightTable ∈ s.source :: done.map Join.table

/-- What is tested on the first table reads this table only. -/
theorem reads_sourceConjuncts (hs : s.Readable) {c : Condition} (hc : c ∈ s.sourceConjuncts) :
    c.Reads s.source [s.source] := by
  obtain ⟨hmem, hsole⟩ := List.mem_filter.mp hc
  exact (hs.reads c hmem).of_soleTable? (beq_iff_eq.mp hsole)

/-- What is tested on a joined table reads this table only. -/
theorem reads_joinedConjuncts (hs : s.Readable) {table : String} {c : Condition}
    (hc : c ∈ s.joinedConjuncts table) : c.Reads s.source [table] := by
  obtain ⟨hmem, hsole⟩ := List.mem_filter.mp hc
  rw [Bool.and_eq_true] at hsole
  exact (hs.reads c hmem).of_soleTable? (beq_iff_eq.mp hsole.1)

/-- What a row of a further table adds to the tests: its own conjuncts and the equalities of
    its join. -/
theorem passes_merge (hs : s.Readable) {j : Join} {l r : Row}
    (hdone : ∀ t ∈ s.source :: done.map Join.table, t ∈ s.tables) (hj : j.table ∈ s.tables)
    (hnot : j.table ∉ s.source :: done.map Join.table)
    (hon : ∀ i ∈ done, ∀ c ∈ i.conditions, c.leftTable ∈ s.source :: done.map Join.table ∧
      c.rightTable ∈ s.source :: done.map Join.table)
    (hl : l.Within (s.source :: done.map Join.table)) :
    s.passes (done ++ [j]) (l.merge (r.qualified j.table))
      = (s.passes done l && ((s.joinedConjuncts j.table).all (·.toFilter.holds r)
          && j.conditions.all (·.holds (l.merge (r.qualified j.table))))) := by
  have hplain : ∀ t ∈ s.source :: done.map Join.table, Plain t := fun t ht =>
    hs.plain t (hdone t ht)
  have hpj := hs.plain _ hj
  have hne : ∀ t ∈ s.source :: done.map Join.table, j.table ≠ t := by
    rintro t ht rfl
    exact hnot ht
  have hold : ∀ t ∈ s.source :: done.map Join.table, ∀ c : Condition, c.Reads s.source [t] →
      c.holds (l.merge (r.qualified j.table)) s.source = c.holds l s.source := by
    intro t ht c hc
    refine hc.holds_merge hl ?_ hpj ?_
    · intro u hu
      rw [List.mem_singleton.mp hu]
      exact hplain t ht
    · intro hmem
      exact hne t ht (List.mem_singleton.mp hmem)
  have hsource : s.sourceConjuncts.all (·.holds (l.merge (r.qualified j.table)) s.source)
      = s.sourceConjuncts.all (·.holds l s.source) := by
    refine all_congr_of_mem ?_
    intro c hc
    exact hold _ List.mem_cons_self c (reads_sourceConjuncts hs hc)
  have hbefore : (done.all fun i => (s.joinedConjuncts i.table).all
        (·.holds (l.merge (r.qualified j.table)) s.source)
        && i.conditions.all (·.holds (l.merge (r.qualified j.table))))
      = done.all fun i => (s.joinedConjuncts i.table).all (·.holds l s.source)
        && i.conditions.all (·.holds l) := by
    refine all_congr_of_mem ?_
    intro i hi
    have htable : i.table ∈ s.source :: done.map Join.table :=
      List.mem_cons_of_mem _ (List.mem_map.mpr ⟨i, hi, rfl⟩)
    congr 1
    · refine all_congr_of_mem ?_
      intro c hc
      exact hold _ htable c (reads_joinedConjuncts hs hc)
    · refine all_congr_of_mem ?_
      intro c hc
      obtain ⟨hleft, hright⟩ := hon i hi c hc
      exact JoinCondition.holds_merge (hplain _ hleft) (hplain _ hright) hpj (hne _ hleft)
        (hne _ hright)
  have hown : (s.joinedConjuncts j.table).all
        (·.holds (l.merge (r.qualified j.table)) s.source)
      = (s.joinedConjuncts j.table).all (·.toFilter.holds r) := by
    refine all_congr_of_mem ?_
    intro c hc
    exact ((reads_joinedConjuncts hs hc).holds_toFilter_merge hl hplain hpj hnot).symm
  rw [passes, passes, hsource, List.all_append, hbefore, List.all_cons, List.all_nil, hown,
    Bool.and_true, Bool.and_assoc]

/-- Trying every pair of a held row and a row of the further table finds the merges that
    pass. -/
theorem nestedLoop_product (hs : s.Readable) {j : Join} {conditions : List JoinCondition}
    {t : StoredTable} (ht : store.tables.get? j.table = some t)
    (hdone : ∀ t ∈ s.source :: done.map Join.table, t ∈ s.tables) (hj : j.table ∈ s.tables)
    (hnot : j.table ∉ s.source :: done.map Join.table)
    (hon : ∀ i ∈ done, ∀ c ∈ i.conditions, c.leftTable ∈ s.source :: done.map Join.table ∧
      c.rightTable ∈ s.source :: done.map Join.table)
    (hconditions : conditions = j.conditions.map (JoinCondition.facing j.table)) :
    nestedLoop conditions ((store.product s.source (done.map Join.table)).filter (s.passes done))
        (selectQualified j.table (s.joinedConjuncts j.table) t)
      = (store.extend (store.product s.source (done.map Join.table)) j.table).filter
          (s.passes (done ++ [j])) := by
  have hall : ∀ row, conditions.all (·.holds row) = j.conditions.all (·.holds row) := by
    intro row
    rw [hconditions, List.all_map]
    refine all_congr_of_mem ?_
    intro c _
    exact JoinCondition.holds_facing c j.table row
  rw [nestedLoop, flatMap_filter, Store.extend, List.filter_flatMap]
  refine List.flatMap_congr ?_
  intro l hl
  have hwithin := store.within_product s.source (done.map Join.table) l hl
  rw [Store.rowsOf_eq ht, matchRow, selectQualified, List.map_map, List.filter_map,
    List.filter_map, List.filter_filter]
  cases hpass : s.passes done l with
  | false =>
      symm
      rw [if_neg Bool.false_ne_true, List.map_eq_nil_iff]
      refine List.filter_eq_nil_iff.mpr ?_
      intro r _
      rw [Function.comp_apply, passes_merge hs hdone hj hnot hon hwithin, hpass, Bool.false_and]
      exact Bool.false_ne_true
  | true =>
      rw [if_pos rfl]
      refine congrArg _ (List.filter_congr ?_)
      intro r _
      have hstep := passes_merge (r := r) hs hdone hj hnot hon hwithin
      rw [hpass, Bool.true_and, ← hall, Bool.and_comm] at hstep
      exact hstep.symm

-- ── One join, and all of them ───────────────────────────────────────────────

/-- The rows of a product are as good as keys as the stored ones. -/
theorem keyable_product {joined : List String}
    (hkeys : ∀ table t, store.tables.get? table = some t → ∀ row ∈ t.rows, row.Keyable) :
    ∀ row ∈ store.product s.source joined, row.Keyable := by
  have hrows : ∀ table, ∀ row ∈ store.rowsOf table, row.Keyable := by
    intro table row hrow
    rw [Store.rowsOf] at hrow
    cases ht : store.tables.get? table with
    | none =>
        rw [ht] at hrow
        exact nomatch hrow
    | some t =>
        rw [ht] at hrow
        exact hkeys table t ht row hrow
  induction joined using List.reverseRecOn with
  | nil =>
      intro row hrow
      obtain ⟨r, hr, rfl⟩ := List.mem_map.mp hrow
      exact (hrows _ r hr).qualified _
  | append_singleton joined table ih =>
      intro row hrow
      rw [Store.product_append] at hrow
      obtain ⟨l, hl, r, hr, rfl⟩ := Store.mem_extend hrow
      exact (ih l hl).merge ((hrows _ r hr).qualified _)

/-- The rows of the first table that pass its conjuncts are held before any join. -/
theorem held_source (hs : s.Readable) {t : StoredTable}
    (ht : store.tables.get? s.source = some t) {source : List Row}
    (hsource : source.Perm
      (t.rows.filter fun row => s.sourceConjuncts.all (·.toFilter.holds row))) :
    s.Held store [] (source.map (Row.qualified s.source)) := by
  constructor
  · refine (hsource.map _).trans (List.Perm.of_eq ?_)
    show _ = ((store.rowsOf s.source).map _).filter _
    rw [Store.rowsOf_eq ht, List.filter_map]
    refine congrArg _ (List.filter_congr ?_)
    intro r _
    rw [Function.comp_apply, passes, List.all_nil, Bool.and_true]
    refine all_congr_of_mem ?_
    intro c hc
    exact (reads_sourceConjuncts hs hc).holds_toFilter_qualified
  · intro j hj
    exact nomatch hj

/-- A join that is planned is granted, and what it returns keeps the invariant. -/
theorem Held.join {held : List Row} (h : s.Held store done held) (hs : s.Readable)
    (hkeys : ∀ table t, store.tables.get? table = some t → ∀ row ∈ t.rows, row.Keyable)
    {j : Join} {t : StoredTable} (ht : store.tables.get? j.table = some t)
    (hdone : ∀ t ∈ s.source :: done.map Join.table, t ∈ s.tables) (hj : j.table ∈ s.tables)
    (hnot : j.table ∉ s.source :: done.map Join.table) {p : JoinPlan}
    (hp : JoinPlan.ofJoin store.schema (s.source :: done.map Join.table)
      (s.joinedConjuncts j.table) j = .ok p) :
    (joinRows store held p).result.Granted ∧
      ∀ out, (joinRows store held p).result = .ok out → s.Held store (done ++ [j]) out := by
  obtain ⟨htable, haccess, hpush, hconditions, hread⟩ := JoinPlan.ofJoin_eq_ok hp
  have hserves : p.access.Serves t (s.joinedConjuncts j.table) := by
    rw [haccess]
    exact JoinPlan.serves_accessFor ht _
  have hheld : ∀ row ∈ held, row.Keyable := by
    intro row hrow
    exact keyable_product (s := s) hkeys row
      (List.mem_of_mem_filter (h.perm.mem_iff.mp hrow))
  have ht' : store.tables.get? p.table = some t := by
    rw [htable]
    exact ht
  obtain ⟨hgranted, hresult⟩ := joinRows_perm ht' hserves hpush (hkeys _ t ht) hheld
  refine ⟨hgranted, fun out hout => ⟨?_, ?_⟩⟩
  · -- the bucket of each key holds what trying every pair would find
    have hmatches : p.matchesOf held (selectQualified j.table (s.joinedConjuncts j.table) t)
        = nestedLoop p.conditions held (selectQualified j.table (s.joinedConjuncts j.table) t) := by
      have hplain : ∀ t ∈ s.source :: done.map Join.table, Plain t := fun t ht =>
        hs.plain t (hdone t ht)
      have hpj := hs.plain _ hj
      rw [← htable] at hpj hnot
      refine JoinPlan.matchesOf_eq_nestedLoop hpj ?_ ?_ ?_
      · intro c hc
        rcases (hread c hc).1 with heq | hmem
        · rw [heq, ← htable]
          exact hpj
        · exact hplain _ hmem
      · intro l hl
        exact (store.within_product s.source (done.map Join.table) l
          (List.mem_of_mem_filter (h.perm.mem_iff.mp hl))).lacks hplain hpj hnot
      · intro r hr
        obtain ⟨stored, -, rfl⟩ := List.mem_map.mp hr
        rw [htable]
        exact Row.within_qualified _ stored
    have hperm := hresult out hout
    rw [htable, hmatches] at hperm
    refine (hperm.trans (nestedLoop_perm h.perm (List.Perm.refl _))).trans (List.Perm.of_eq ?_)
    rw [nestedLoop_product hs ht hdone hj hnot h.on hconditions, List.map_append,
      ← Store.product_append]
    rfl
  · intro i hi c hc
    rw [List.map_append, ← List.cons_append]
    rcases List.mem_append.mp hi with hi | hi
    · obtain ⟨hl, hr⟩ := h.on i hi c hc
      exact ⟨List.mem_append_left _ hl, List.mem_append_left _ hr⟩
    · rw [List.mem_singleton.mp hi] at hc
      have hmem : c.facing j.table ∈ p.conditions := by
        rw [hconditions]
        exact List.mem_map.mpr ⟨c, hc, rfl⟩
      have hside : ∀ {t : String}, t = j.table ∨ t ∈ s.source :: done.map Join.table →
          t ∈ s.source :: done.map Join.table ++ [j].map Join.table := by
        rintro t (rfl | hmem)
        · exact List.mem_append_right _ (List.mem_singleton_self _)
        · exact List.mem_append_left _ hmem
      obtain ⟨hl, hr⟩ := hread _ hmem
      rcases JoinCondition.facing_eq_or c j.table with heq | heq
      · rw [heq] at hl hr
        exact ⟨hside hl, hside hr⟩
      · rw [heq] at hl hr
        exact ⟨hside hr, hside hl⟩

/-- All joins that are planned are granted, and what they return keeps the invariant. -/
theorem Held.joins (hs : s.Readable)
    (hkeys : ∀ table t, store.tables.get? table = some t → ∀ row ∈ t.rows, row.Keyable)
    (htables : ∀ table ∈ s.tables, ∃ t, store.tables.get? table = some t) {held : List Row}
    (h : s.Held store done held) {js : List Join} (hsplit : done ++ js = s.joins)
    {plans : List JoinPlan}
    (hplans : s.planJoins store.schema (s.source :: done.map Join.table) js = .ok plans) :
    (plans.foldlM (joinRows store) held).result.Granted ∧
      ∀ out, (plans.foldlM (joinRows store) held).result = .ok out →
        s.Held store s.joins out := by
  induction js generalizing done held plans with
  | nil =>
      rw [List.append_nil] at hsplit
      rw [← Except.ok.inj hplans, ← hsplit]
      refine ⟨Outcome.granted_ok held, fun out hout => ?_⟩
      rw [← Except.ok.inj hout]
      exact h
  | cons j js ih =>
      obtain ⟨p, ps, rfl, hp, hps⟩ := planJoins_cons hplans
      have htablesEq : s.tables
          = (s.source :: done.map Join.table) ++ j.table :: js.map Join.table := by
        rw [tables, ← hsplit, List.map_append]
        rfl
      have hdone : ∀ t ∈ s.source :: done.map Join.table, t ∈ s.tables := by
        intro t ht
        rw [htablesEq]
        exact List.mem_append_left _ ht
      have hj : j.table ∈ s.tables := by
        rw [htablesEq]
        exact List.mem_append_right _ List.mem_cons_self
      have hnot : j.table ∉ s.source :: done.map Join.table := by
        intro hmem
        have hnodup := hs.nodup
        rw [htablesEq] at hnodup
        exact (List.nodup_append.mp hnodup).2.2 _ hmem _ List.mem_cons_self rfl
      obtain ⟨t, ht⟩ := htables _ hj
      obtain ⟨hgranted, hstep⟩ := h.join hs hkeys ht hdone hj hnot hp
      have hlater : ∀ mid, (joinRows store held p).result = .ok mid →
          (ps.foldlM (joinRows store) mid).result.Granted ∧
            ∀ out, (ps.foldlM (joinRows store) mid).result = .ok out →
              s.Held store s.joins out := by
        intro mid hmid
        refine ih (hstep mid hmid) ?_ ?_
        · rw [List.append_assoc]
          exact hsplit
        · rw [List.map_append, ← List.cons_append]
          exact hps
      rw [List.foldlM_cons]
      refine ⟨Reading.granted_bind hgranted fun mid hmid => (hlater mid hmid).1, ?_⟩
      intro out hout
      obtain ⟨mid, hmid, hout⟩ := Reading.result_bind_eq_ok hout
      exact (hlater mid hmid).2 out hout

end Select

-- ── Joined queries ──────────────────────────────────────────────────────────

/-- **A joined query filters the product of its tables.** What an accepted query with a join, read
    from text, holds after its last join are the merges that satisfy all equalities and the whole
    condition, and it shows what is made of them. Only a sort of the store can end it before, and
    none does where no index has a column that mixes types. -/
theorem joinedRows_perm_matching {store : Store} (hstore : store.Reachable Document.IsJson)
    {source : String} {s : Select} (htext : Select.ofText source = .ok s) (hjoins : s.joins ≠ [])
    {limits : Limits} {p : Prepared}
    (hprepared : Engine.prepareWith limits store.schema s = .ok p) (maxRows : Nat) :
    ((p.plan.held p.query store).result = .error .panicked ∨
      ∃ held, (p.plan.held p.query store).result = .ok held ∧ held.Perm (s.matching store)) ∧
    (store.Sortable → (p.plan.held p.query store).result ≠ .error .panicked) ∧
    (p.plan.run p.query store maxRows).result
      = (p.plan.held p.query store).result >>= fun held =>
          (p.plan.showRows p.query held).map (·.take maxRows) := by
  refine ⟨?_, fun hsortable => hsortable.calm_held p.plan p.query, Plan.run_eq ..⟩
  obtain ⟨htables, hlimits, hcheck, hplan⟩ := Engine.prepareWith_eq_ok.mp hprepared
  obtain ⟨hquery, -⟩ := Limits.enforce_eq_ok hlimits
  obtain ⟨query, plan⟩ := p
  dsimp only at hquery hcheck hplan ⊢
  generalize query.limit = limit at hquery
  subst hquery
  have hnames := Select.plainNames_ofText htext
  have hs : Select.Readable { s with limit := limit } :=
    (Select.check_eq_ok hcheck).readable ⟨hnames.tables, hnames.filter⟩
  have hexists := Select.exists_table htables
  obtain ⟨htable, haccess, -, hplanJoins, hpost⟩ := Select.plan_eq_ok hplan
  obtain ⟨t, ht⟩ := hexists s.source List.mem_cons_self
  -- the first table is read whole, and then joined
  have hnonempty : plan.joins.isEmpty = false := by
    obtain ⟨j, js, hj⟩ := List.exists_cons_of_ne_nil hjoins
    dsimp only at hplanJoins
    rw [hj] at hplanJoins
    obtain ⟨p, ps, hps, -, -⟩ := Select.planJoins_cons hplanJoins
    rw [hps]
    rfl
  have hcount : plan.pushedLimit { s with limit := limit } = none := by
    rw [Plan.pushedLimit, hnonempty, Bool.and_false, Bool.false_and]
    rfl
  obtain ⟨q, hfetch, hrows⟩ := (Select.serves_planAccess ht haccess).fetch ht plan.nativeDirection
  have hread : (store.fetch plan.table plan.access plan.nativeDirection
      (plan.pushedLimit { s with limit := limit })).result = .ofSort q.rows := by
    rw [hcount, htable]
    exact hfetch none
  rw [Plan.held]
  cases hq : q.rows with
  | none =>
      rw [hq] at hread
      exact .inl (Reading.result_bind_error hread _)
  | some rows =>
      rw [hq] at hread
      rw [hq] at hrows
      have hheld := Select.held_source hs ht (AccessPath.arrange_perm hrows.symm)
      obtain ⟨hgranted, hend⟩ := hheld.joins hs (fun _ _ => hstore.keyable) hexists
        (List.nil_append _) hplanJoins
      rw [Reading.result_bind_ok hread, Plan.joinedRows, hnonempty, htable]
      rcases Outcome.granted_iff.mp hgranted with hpanic | ⟨out, hout⟩
      · exact .inl (Reading.result_bind_error hpanic _)
      · refine .inr ⟨_, Reading.result_bind_ok hout _, ?_⟩
        refine ((hend out hout).perm.filter _).trans (List.Perm.of_eq ?_)
        rw [List.filter_filter, Select.matching]
        refine List.filter_congr ?_
        intro row _
        rw [Bool.and_comm, hpost, Condition.all_holds_all?]
        exact Select.passes_joins hs row

/-- Users joined with their orders, with a condition on either table and one on both. -/
def Select.sampleJoin : Select :=
  let age := Condition.compare ⟨.column (some "users") "age", .gt, .number (.ofNat 20)⟩
  let total := Condition.compare ⟨.column (some "orders") "total", .gtEq, .number (.ofNat 1)⟩
  let name := Condition.compare ⟨.column (some "users") "name", .eq, .text "Ann"⟩
  { columns := [.star]
    source := "users"
    indexHint := some "by_age"
    joins := [⟨"orders", none, [⟨"orders", "user", "users", "name"⟩]⟩]
    filter := some (.and age (.or total name))
    groupBy := []
    having := none
    orderBy := []
    limit := none }

/-- Two tables joined, with one condition on the first and one on both. -/
theorem joinedRows_perm_matching_sample :
    ∃ p, Engine.prepareWith .standard Store.sample.schema Select.sampleJoin = .ok p ∧
      ∃ held, (p.plan.held p.query Store.sample).result = .ok held ∧
        held.Perm (Select.sampleJoin.matching Store.sample) ∧
        (p.plan.run p.query Store.sample 1000).result
          = (p.plan.showRows p.query held).map (·.take 1000) := by
  have htext : Select.ofText ("SELECT * FROM users@by_age JOIN orders ON orders.user = users.name "
      ++ "WHERE users.age > 20 AND (orders.total >= 1 OR users.name = 'Ann')")
      = .ok Select.sampleJoin := eq_ok_of_toOption (by decide +kernel)
  have hisOk : (Engine.prepareWith .standard Store.sample.schema
      Select.sampleJoin).isOk = true := by decide +kernel
  obtain ⟨p, hp⟩ := exists_eq_ok_of_isOk hisOk
  obtain ⟨hheld, hcalm, hrun⟩ := joinedRows_perm_matching
    (Store.reachable_sample.mono fun _ h => h.1) htext (List.cons_ne_nil _ _) hp 1000
  obtain ⟨held, hheld, hperm⟩ := hheld.resolve_left (hcalm Store.sortable_sample)
  refine ⟨p, hp, held, hheld, hperm, ?_⟩
  rw [hrun, hheld]
  rfl

end DocQuery
