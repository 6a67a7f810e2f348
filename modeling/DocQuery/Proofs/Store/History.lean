import DocQuery.Proofs.Result.Sort
import DocQuery.Proofs.Store.Scan

/-!
# The history of a store — what a run of changes leaves behind

A history is a store together with all insertions that were asked of it and what each of them
answered. Every change of a store, one that fails included, is made of three kinds of steps: a
table is created, a document is inserted, an index is defined. What these keep therefore holds
after every run of changes (`foldl_induction`). The invariant is that each table's rows are the
accepted insertions into it, in their order, each stamped with the id that was answered and
with its number among all insertions (`consistent_run`). All else about ids, creation times and
counts is read off from that (`orderly_run`).
-/

namespace DocQuery

/-- A call that changes a store. -/
inductive Change where
  | createTable (table : String)
  | addTable (table : String) (docs : List Document)
  | insert (table : String) (doc : Document)
  | defineIndex (table index : String) (fields : List String)

/-- The insertions that a change asks for if it does not fail. -/
def Change.insertions : Change → List (String × Document)
  | .createTable _ => []
  | .addTable table docs => docs.map fun doc => (table, doc)
  | .insert table doc => [(table, doc)]
  | .defineIndex _ _ _ => []

/-- What was asked of an insertion, and what it answered. -/
structure Insertion where
  table : String
  doc : Document
  answer : Except StoreError String

/-- A store and the insertions asked of it, in their order. -/
structure History where
  store : Store
  log : List Insertion

namespace History

variable {h : History}

/-- The new store, of which nothing was asked. -/
def empty : History :=
  ⟨.empty, []⟩

/-- Insert a document, and note the answer. -/
def insert (h : History) (table : String) (doc : Document) : Except StoreError String × History :=
  let (answer, store) := h.store.insert table doc
  (answer, ⟨store, h.log ++ [⟨table, doc, answer⟩]⟩)

/-- Insert documents up to the first that is refused. -/
def insertEach (h : History) (table : String) : List Document → Except StoreError Unit × History
  | [] => (.ok (), h)
  | doc :: docs =>
    match h.insert table doc with
    | (.error e, h') => (.error e, h')
    | (.ok _, h') => h'.insertEach table docs

/-- What a change answers, and the history after it. -/
def change (h : History) : Change → Except StoreError Unit × History
  | .createTable table => (.ok (), { h with store := h.store.createTable table })
  | .addTable table docs => { h with store := h.store.createTable table }.insertEach table docs
  | .insert table doc =>
    let (answer, h') := h.insert table doc
    (answer.map fun _ => (), h')
  | .defineIndex table index fields =>
    match h.store.defineIndex table index fields with
    | .error e => (.error e, h)
    | .ok store => (.ok (), { h with store })

/-- The history after changes to the new store, whether or not they fail. -/
def run (changes : List Change) : History :=
  changes.foldl (fun h c => (h.change c).2) empty

/-- A run goes on where the first part of it stopped. -/
theorem run_append (before after : List Change) :
    run (before ++ after) = after.foldl (fun h c => (h.change c).2) (run before) :=
  List.foldl_append

-- ── The steps of a change ───────────────────────────────────────────────────

/-- What creating a table, inserting a document and defining an index keep, every change
    keeps. -/
theorem change_induction {P : History → Prop}
    (create : ∀ h table, P h → P { h with store := h.store.createTable table })
    (insert : ∀ h table doc, P h → P (h.insert table doc).2)
    (define : ∀ h table index fields store, P h →
      h.store.defineIndex table index fields = .ok store → P { h with store })
    (hP : P h) (c : Change) : P (h.change c).2 := by
  have hall : ∀ (docs : List Document) (table : String) (h : History), P h →
      P (h.insertEach table docs).2 := by
    intro docs table
    induction docs with
    | nil => exact fun _ hP => hP
    | cons doc docs ih =>
        intro h hP
        have hstep := insert h table doc hP
        rw [insertEach]
        rcases hinsert : h.insert table doc with ⟨_ | id, h'⟩ <;> rw [hinsert] at hstep
        · exact hstep
        · exact ih h' hstep
  cases c with
  | createTable table => exact create h table hP
  | addTable table docs => exact hall docs table _ (create h table hP)
  | insert table doc => exact insert h table doc hP
  | defineIndex table index fields =>
      rw [change]
      cases hdefine : h.store.defineIndex table index fields with
      | error e => exact hP
      | ok store => exact define h table index fields store hP hdefine

/-- They hold after every run of changes. -/
theorem foldl_induction {P : History → Prop}
    (create : ∀ h table, P h → P { h with store := h.store.createTable table })
    (insert : ∀ h table doc, P h → P (h.insert table doc).2)
    (define : ∀ h table index fields store, P h →
      h.store.defineIndex table index fields = .ok store → P { h with store })
    (hP : P h) (changes : List Change) :
    P (changes.foldl (fun h c => (h.change c).2) h) := by
  induction changes generalizing h with
  | nil => exact hP
  | cons c changes ih => exact ih (change_induction create insert define hP c)

-- ── Rows in the log ─────────────────────────────────────────────────────────

/-- An insertion that was accepted: the id that was answered, and its number among all. -/
structure Acceptance where
  id : String
  tick : Nat
  doc : Document

/-- The row that it leaves. -/
def Acceptance.row (a : Acceptance) : Row :=
  Store.stamp a.id a.tick (Row.ofDocument a.doc)

/-- An insertion of the number, if it is into the table and was accepted. -/
def acceptance? (table : String) (tick : Nat) (i : Insertion) : Option Acceptance :=
  if i.table = table then i.answer.toOption.map fun id => ⟨id, tick, i.doc⟩ else none

/-- The accepted insertions into a table, in their order. -/
def accepted (log : List Insertion) (table : String) : List Acceptance :=
  (log.zipIdx 1).filterMap fun x => acceptance? table x.2 x.1

variable {log : List Insertion} {table : String}

/-- One more insertion is accepted behind the earlier ones, or not for this table. -/
theorem accepted_concat (log : List Insertion) (i : Insertion) (table : String) :
    accepted (log ++ [i]) table
      = accepted log table ++ (acceptance? table (log.length + 1) i).toList := by
  rw [accepted, List.zipIdx_append, List.filterMap_append, accepted, Nat.add_comm]
  refine congrArg (_ ++ ·) ?_
  rw [List.zipIdx_singleton, List.filterMap_cons]
  cases acceptance? table (log.length + 1) i <;> rfl

/-- What was accepted was asked for at its tick. -/
theorem mem_accepted {a : Acceptance} (ha : a ∈ accepted log table) :
    ∃ i, log[a.tick - 1]? = some i ∧ i.table = table ∧ 1 ≤ a.tick ∧ a.tick ≤ log.length := by
  obtain ⟨⟨i, tick⟩, hmem, heq⟩ := List.mem_filterMap.mp ha
  obtain ⟨hle, hget⟩ := List.mk_mem_zipIdx_iff_le_and_getElem?_sub.mp hmem
  obtain ⟨hlt, -⟩ := List.getElem?_eq_some_iff.mp hget
  have hbound : tick ≤ log.length := by omega
  dsimp only [acceptance?] at heq
  split at heq
  · rename_i htable
    obtain ⟨id, -, rfl⟩ := Option.map_eq_some_iff.mp heq
    exact ⟨i, hget, htable, hle, hbound⟩
  · exact nomatch heq

/-- The ticks of accepted insertions increase. -/
theorem pairwise_accepted (log : List Insertion) (table : String) :
    (accepted log table).Pairwise fun a b => a.tick < b.tick := by
  have htick : ∀ {x : Insertion × Nat} {a : Acceptance}, acceptance? table x.2 x.1 = some a →
      a.tick = x.2 := by
    intro x a heq
    rw [acceptance?] at heq
    split at heq
    · obtain ⟨id, -, rfl⟩ := Option.map_eq_some_iff.mp heq
      rfl
    · exact nomatch heq
  have hnumbers : (log.zipIdx 1).Pairwise fun x y => x.2 < y.2 := by
    refine List.pairwise_map.mp ?_
    rw [List.zipIdx_map_snd]
    exact List.pairwise_lt_range' 1
  refine hnumbers.filterMap _ ?_
  intro x y hlt a ha b hb
  rw [htick ha, htick hb]
  exact hlt

/-- The rows of a table; one that is missing has none. -/
def rowsIn (s : Store) (table : String) : List Row :=
  ((s.tables.get? table).map StoredTable.rows).getD []

/-- The clock counts the insertions, and the rows are those of the accepted ones. -/
structure Consistent (h : History) : Prop where
  clock : h.store.clock = h.log.length
  rows : ∀ table, rowsIn h.store table = (accepted h.log table).map Acceptance.row

/-- To create a table changes no rows. -/
theorem rowsIn_createTable (s : Store) (table name : String) :
    rowsIn (s.createTable table) name = rowsIn s name := by
  rw [rowsIn, rowsIn, Store.createTable, Keyed.get?_alter]
  split
  · rename_i heq
    rw [← heq]
    cases s.tables.get? table <;> rfl
  · rfl

/-- Neither does a new index. -/
theorem rowsIn_defineIndex {s s' : Store} {table index : String} {fields : List String}
    (heq : s.defineIndex table index fields = .ok s') (name : String) :
    rowsIn s' name = rowsIn s name := by
  rw [Store.defineIndex] at heq
  cases ht : s.tables.get? table with
  | none =>
      rw [ht] at heq
      cases heq
  | some t =>
      rw [ht] at heq
      rw [← Except.ok.inj heq, rowsIn, rowsIn, Keyed.get?_insert]
      split
      · rename_i hname
        rw [← hname, ht]
        rfl
      · rfl

/-- An insertion adds its row, if it is accepted, after the rows of its table. -/
theorem rowsIn_insert (s : Store) (table : String) (doc : Document) (name : String) :
    rowsIn (s.insert table doc).2 name = rowsIn s name
      ++ (acceptance? name (s.clock + 1) ⟨table, doc, (s.insert table doc).1⟩).toList.map
        Acceptance.row := by
  rw [Store.insert, acceptance?]
  cases ht : s.tables.get? table with
  | none =>
      dsimp only
      rw [Except.toOption, Option.map_none, ite_self]
      exact (List.append_nil _).symm
  | some t =>
      dsimp only
      rw [rowsIn, rowsIn, Keyed.get?_insert]
      split
      · rename_i heq
        rw [← heq, ht]
        rfl
      · exact (List.append_nil _).symm

/-- After every run the store's rows are those of the accepted insertions. -/
theorem consistent_run (changes : List Change) : (run changes).Consistent := by
  refine foldl_induction ?_ ?_ ?_ ⟨rfl, fun table => rfl⟩ changes
  · intro h table hc
    exact ⟨hc.clock, fun name => (rowsIn_createTable _ _ _).trans (hc.rows name)⟩
  · intro h table doc hc
    refine ⟨?_, ?_⟩
    · show (h.store.insert table doc).2.clock = (h.log ++ [_]).length
      rw [Store.clock_insert, hc.clock, List.length_append]
      rfl
    · intro name
      show rowsIn (h.store.insert table doc).2 name
        = (accepted (h.log ++ [⟨table, doc, (h.store.insert table doc).1⟩]) name).map Acceptance.row
      rw [rowsIn_insert, accepted_concat, List.map_append, hc.rows, hc.clock]
  · intro h table index fields store hc hdefine
    refine ⟨?_, fun name => (rowsIn_defineIndex hdefine name).trans (hc.rows name)⟩
    rw [← hc.clock]
    rw [Store.defineIndex] at hdefine
    split at hdefine
    · cases hdefine
    · rw [← Except.ok.inj hdefine]

-- ── Rows of earlier stores ──────────────────────────────────────────────────

/-- Each table is still there, with the rows it had and perhaps more after them. -/
def Extends (s s' : Store) : Prop :=
  ∀ table t, s.tables.get? table = some t →
    ∃ t', s'.tables.get? table = some t' ∧ t.rows <+: t'.rows

/-- To extend is transitive. -/
theorem Extends.trans {s s' s'' : Store} (h : Extends s s') (h' : Extends s' s'') :
    Extends s s'' := by
  intro table t ht
  obtain ⟨t', ht', hrows⟩ := h table t ht
  obtain ⟨t'', ht'', hrows'⟩ := h' table t' ht'
  exact ⟨t'', ht'', hrows.trans hrows'⟩

/-- A store extends another if its tables and their rows do. -/
theorem extends_of_rowsIn {s s' : Store}
    (htables : ∀ table, (s.tables.get? table).isSome → (s'.tables.get? table).isSome)
    (hrows : ∀ table, rowsIn s table <+: rowsIn s' table) : Extends s s' := by
  intro table t ht
  obtain ⟨t', ht'⟩ := Option.isSome_iff_exists.mp (htables table (by rw [ht]; rfl))
  have hprefix := hrows table
  rw [rowsIn, rowsIn, ht, ht'] at hprefix
  exact ⟨t', ht', hprefix⟩

/-- An entry that is there stays there. -/
theorem isSome_get?_alter {α : Type} {m : Keyed α} {name : String} (key : String)
    (f : Option α → α) (hname : (m.get? name).isSome = true) :
    ((m.alter key f).get? name).isSome = true := by
  rw [Keyed.get?_alter]
  split
  · rfl
  · exact hname

theorem isSome_createTable (s : Store) (table : String) :
    ((s.createTable table).tables.get? table).isSome = true := by
  rw [Store.createTable, Keyed.get?_alter, if_pos rfl]
  rfl

/-- No change takes a table away, or changes its rows or their order. -/
theorem extends_foldl (h : History) (changes : List Change) :
    Extends h.store (changes.foldl (fun h c => (h.change c).2) h).store := by
  refine foldl_induction (P := fun h' => Extends h.store h'.store) ?_ ?_ ?_
    (fun table t ht => ⟨t, ht, List.prefix_rfl⟩) changes
  · intro h' table hext
    refine hext.trans (extends_of_rowsIn (fun name hname => isSome_get?_alter _ _ hname) ?_)
    intro name
    exact ⟨[], by rw [List.append_nil, rowsIn_createTable]⟩
  · intro h' table doc hext
    refine hext.trans (extends_of_rowsIn ?_ ?_)
    · intro name hname
      show ((h'.store.insert table doc).2.tables.get? name).isSome = true
      rw [Store.insert]
      cases h'.store.tables.get? table with
      | none => exact hname
      | some t => exact isSome_get?_alter _ _ hname
    · intro name
      show rowsIn h'.store name <+: rowsIn (h'.store.insert table doc).2 name
      rw [rowsIn_insert]
      exact List.prefix_append _ _
  · intro h' table index fields store hext hdefine
    refine hext.trans (extends_of_rowsIn ?_ ?_)
    · intro name hname
      rw [Store.defineIndex] at hdefine
      split at hdefine
      · cases hdefine
      · rw [← Except.ok.inj hdefine]
        exact isSome_get?_alter _ _ hname
    · intro name
      exact ⟨[], by rw [List.append_nil, rowsIn_defineIndex hdefine]⟩

-- ── What a change asks and answers ──────────────────────────────────────────

/-- Documents are inserted into a table that is there without a failure. -/
theorem insertEach_eq (docs : List Document) (htable : (h.store.tables.get? table).isSome) :
    (h.insertEach table docs).1 = .ok () ∧
      (h.insertEach table docs).2.store = h.store.insertAll table docs ∧
      (h.insertEach table docs).2.log.map (fun i => (i.table, i.doc))
        = h.log.map (fun i => (i.table, i.doc)) ++ docs.map fun doc => (table, doc) := by
  induction docs generalizing h with
  | nil => exact ⟨rfl, rfl, (List.append_nil _).symm⟩
  | cons doc docs ih =>
      obtain ⟨t, ht⟩ := Option.isSome_iff_exists.mp htable
      obtain ⟨id, s, hs, hthere⟩ : ∃ id s, h.store.insert table doc = (.ok id, s) ∧
          (s.tables.get? table).isSome = true := by
        rw [Store.insert, ht]
        exact ⟨_, _, rfl, isSome_get?_alter _ _ htable⟩
      have hinsert : h.insert table doc = (.ok id, ⟨s, h.log ++ [⟨table, doc, .ok id⟩]⟩) := by
        rw [insert, hs]
      have hall : h.store.insertAll table (doc :: docs) = s.insertAll table docs := by
        rw [Store.insertAll, List.foldl_cons, hs]
        rfl
      obtain ⟨hanswer, hafter, hlog⟩ := ih (h := ⟨s, h.log ++ [⟨table, doc, .ok id⟩]⟩) hthere
      rw [insertEach, hinsert, hall]
      refine ⟨hanswer, hafter, hlog.trans ?_⟩
      rw [List.map_append, List.append_assoc]
      rfl

/-- Adding a table does not fail, and leaves the store of `Store.addTable`. -/
theorem change_addTable (h : History) (table : String) (docs : List Document) :
    (h.change (.addTable table docs)).1 = .ok () ∧
      (h.change (.addTable table docs)).2.store = h.store.addTable table docs := by
  obtain ⟨hanswer, hstore, -⟩ := insertEach_eq (h := { h with store := h.store.createTable table })
    docs (isSome_createTable _ _)
  exact ⟨hanswer, hstore⟩

/-- A change asks for its insertions behind those asked for before. -/
theorem asked_change (h : History) (c : Change) :
    (h.change c).2.log.map (fun i => (i.table, i.doc))
      = h.log.map (fun i => (i.table, i.doc)) ++ c.insertions := by
  cases c with
  | createTable table => exact (List.append_nil _).symm
  | addTable table docs =>
      exact (insertEach_eq (h := { h with store := h.store.createTable table }) docs
        (isSome_createTable _ _)).2.2
  | insert table doc => exact List.map_append
  | defineIndex table index fields =>
      rw [change]
      cases h.store.defineIndex table index fields with
      | error e => exact (List.append_nil _).symm
      | ok store => exact (List.append_nil _).symm

/-- The log has the insertions that the changes ask for. -/
theorem asked_run (changes : List Change) :
    (run changes).log.map (fun i => (i.table, i.doc)) = changes.flatMap Change.insertions := by
  have hfold : ∀ (changes : List Change) (h : History),
      (changes.foldl (fun h c => (h.change c).2) h).log.map (fun i => (i.table, i.doc))
        = h.log.map (fun i => (i.table, i.doc)) ++ changes.flatMap Change.insertions := by
    intro changes
    induction changes with
    | nil => exact fun h => (List.append_nil _).symm
    | cons c changes ih =>
        intro h
        rw [List.foldl_cons, ih, asked_change, List.flatMap_cons, List.append_assoc]
  exact hfold changes empty

/-- A change that fails leaves the tables with their rows and indexes. -/
theorem tables_of_change_eq_error {c : Change} {e : StoreError} (he : (h.change c).1 = .error e) :
    (h.change c).2.store.tables = h.store.tables ∧
      h.store.clock ≤ (h.change c).2.store.clock := by
  cases c with
  | createTable table => cases he
  | addTable table docs =>
      rw [(change_addTable h table docs).1] at he
      cases he
  | insert table doc =>
      have hstore : (h.change (.insert table doc)).2.store = (h.store.insert table doc).2 := rfl
      have hanswer : (h.change (.insert table doc)).1
          = (h.store.insert table doc).1.map fun _ => () := rfl
      rw [hanswer] at he
      rw [hstore, Store.clock_insert]
      refine ⟨?_, Nat.le_succ _⟩
      rw [Store.insert] at he ⊢
      cases ht : h.store.tables.get? table with
      | none => rfl
      | some t =>
          rw [ht] at he
          cases he
  | defineIndex table index fields =>
      rw [change] at he ⊢
      cases hdefine : h.store.defineIndex table index fields with
      | error e => exact ⟨rfl, Nat.le_refl _⟩
      | ok store =>
          rw [hdefine] at he
          cases he

-- ── Ids, creation times and counts ──────────────────────────────────────────

/-- The tables of the store are as the log of insertions says. -/
structure Orderly (h : History) : Prop where
  /-- Creation times increase along the rows of a table. -/
  increasing : ∀ table t, h.store.tables.get? table = some t →
    t.rows.Pairwise fun a b =>
      Operator.lt.holds (a.value creationTimeField) (b.value creationTimeField) = true
  /-- No two rows share a creation time, whichever tables they are in. -/
  unique : ∀ table t table' t', h.store.tables.get? table = some t →
    h.store.tables.get? table' = some t' → ∀ (i j : Nat) (row row' : Row),
    t.rows[i]? = some row → t'.rows[j]? = some row' →
    Operator.eq.holds (row.value creationTimeField) (row'.value creationTimeField) = true →
    table = table' ∧ i = j
  /-- No creation time is after the clock. -/
  bounded : ∀ table t, h.store.tables.get? table = some t → ∀ row ∈ t.rows,
    Operator.ltEq.holds (row.value creationTimeField) (.number (.ofNat h.store.clock)) = true
  /-- The ids are the texts that the accepted insertions answered, in their order. -/
  ids : ∀ table t, h.store.tables.get? table = some t →
    t.rows.map (·.value idField) = (accepted h.log table).map fun a => .text a.id
  /-- There are as many rows as accepted insertions. -/
  count : ∀ table t, h.store.tables.get? table = some t →
    h.store.rowCount? table = some (accepted h.log table).length
  /-- The rows are the inserted documents, stamped. -/
  rows : ∀ table t, h.store.tables.get? table = some t →
    t.rows = (accepted h.log table).map Acceptance.row
  /-- A scan without an index gives the rows that it admits sorted by creation time. -/
  ascending : ∀ table (q : Scan), h.store.tables.get? table = some q.source → q.index = none →
    (q.directed .ascending).rows = some ((q.source.rows.filter q.admits).mergeSort fun a b =>
      Scan.compareRows [creationTimeField] .ascending a b != .gt)
  /-- Descending it gives the same turned around. -/
  descending : ∀ table (q : Scan), h.store.tables.get? table = some q.source → q.index = none →
    (q.directed .descending).rows = (q.directed .ascending).rows.map List.reverse

/-- Ticks compare as the magnitudes that they are rounded to. -/
theorem compare?_ofNat (m n : Nat) :
    (Value.number (.ofNat m)).compare? (.number (.ofNat n))
      = some (compare ((Number.ofNat m).magnitude : Int) (Number.ofNat n).magnitude) :=
  Number.compare?_of_not_isNaN (Number.isNaN_ofMagnitude _ _) (Number.isNaN_ofMagnitude _ _)

/-- The numbers of insertions are kept apart as values. -/
theorem eq_of_holds_ofNat {m n : Nat} (hm : m < 2 ^ 53) (hn : n < 2 ^ 53)
    (h : Operator.eq.holds (.number (.ofNat m)) (.number (.ofNat n)) = true) : m = n := by
  have hrank : (Number.ofNat m).rank = (Number.ofNat n).rank := (Number.equal_iff.mp h).2.2
  have hmagnitude : (Number.ofNat m).magnitude = (Number.ofNat n).magnitude := by
    rwa [Number.ofNat, Number.ofNat, Number.ofUnits, Number.ofUnits, Number.rank_ofMagnitude,
      Number.rank_ofMagnitude, Int.natCast_inj] at hrank
  rcases Nat.lt_trichotomy m n with hlt | heq | hgt
  · exact absurd hmagnitude (Nat.ne_of_lt (Number.ofNat_lt_ofNat hlt hn))
  · exact heq
  · exact absurd hmagnitude.symm (Nat.ne_of_lt (Number.ofNat_lt_ofNat hgt hm))

/-- Accepted insertions of one number are one, into one table and at one place. -/
theorem place_eq_of_tick_eq {table' : String} {a b : Acceptance} {i j : Nat}
    (ha : (accepted log table)[i]? = some a) (hb : (accepted log table')[j]? = some b)
    (htick : a.tick = b.tick) : table = table' ∧ i = j := by
  obtain ⟨x, hx, rfl, -, -⟩ := mem_accepted (List.mem_of_getElem? ha)
  obtain ⟨y, hy, rfl, -, -⟩ := mem_accepted (List.mem_of_getElem? hb)
  rw [htick, hy] at hx
  obtain rfl := Option.some.inj hx
  refine ⟨rfl, ?_⟩
  have hsorted := List.pairwise_iff_getElem.mp (pairwise_accepted log y.table)
  obtain ⟨hi, rfl⟩ := List.getElem?_eq_some_iff.mp ha
  obtain ⟨hj, rfl⟩ := List.getElem?_eq_some_iff.mp hb
  rcases Nat.lt_trichotomy i j with hlt | heq | hgt
  · exact absurd htick (Nat.ne_of_lt (hsorted i j hi hj hlt))
  · exact heq
  · exact absurd htick.symm (Nat.ne_of_lt (hsorted j i hj hi hgt))

/-- The rows of a table are those of the accepted insertions. -/
theorem Consistent.rows_eq (hc : h.Consistent) {t : StoredTable}
    (ht : h.store.tables.get? table = some t) :
    t.rows = (accepted h.log table).map Acceptance.row := by
  rw [← hc.rows, rowsIn, ht]
  rfl

/-- The row at a place is that of the accepted insertion at this place. -/
theorem Consistent.getElem?_rows (hc : h.Consistent) {t : StoredTable}
    (ht : h.store.tables.get? table = some t) {i : Nat} {row : Row}
    (hrow : t.rows[i]? = some row) :
    ∃ a, (accepted h.log table)[i]? = some a ∧ a.row = row ∧ a.tick ≤ h.store.clock := by
  rw [hc.rows_eq ht, List.getElem?_map] at hrow
  obtain ⟨a, ha, rfl⟩ := Option.map_eq_some_iff.mp hrow
  obtain ⟨-, -, -, -, hle⟩ := mem_accepted (List.mem_of_getElem? ha)
  exact ⟨a, ha, rfl, hle.trans_eq hc.clock.symm⟩

theorem Acceptance.value_creationTime (a : Acceptance) :
    a.row.value creationTimeField = .number (.ofNat a.tick) := by
  rw [row, Row.value, Store.get?_stamp, if_pos rfl]
  rfl

theorem Acceptance.value_id (a : Acceptance) : a.row.value idField = .text a.id := by
  rw [row, Row.value, Store.get?_stamp, if_neg (by decide), if_pos rfl]
  rfl

/-- Their times are the ticks. -/
theorem Consistent.ticks (hc : h.Consistent) {t : StoredTable}
    (ht : h.store.tables.get? table = some t) :
    Store.Ticks t.rows h.store.clock ((accepted h.log table).map Acceptance.tick) where
  times := by
    rw [hc.rows_eq ht, List.map_map, List.map_map]
    exact List.map_congr_left fun a _ => a.value_creationTime
  sorted := List.pairwise_map.mpr (pairwise_accepted _ _)
  le := by
    intro n hn
    obtain ⟨a, ha, rfl⟩ := List.mem_map.mp hn
    obtain ⟨-, -, -, -, hle⟩ := mem_accepted ha
    exact hle.trans_eq hc.clock.symm

theorem rows_directed_ascending {q : Scan} (hindex : q.index = none) :
    (q.directed .ascending).rows = some (q.source.rows.filter q.admits) :=
  Scan.rows_of_unindexed (q := q.directed .ascending) hindex

theorem rows_directed_descending {q : Scan} (hindex : q.index = none) :
    (q.directed .descending).rows = some (q.source.rows.filter q.admits).reverse :=
  Scan.rows_of_unindexed (q := q.directed .descending) hindex

/-- Below `2 ^ 53` insertions, the invariant tells all rows apart by their times. -/
theorem Consistent.orderly (hc : h.Consistent) (hclock : h.store.clock < 2 ^ 53) : h.Orderly where
  increasing table t ht := by
    refine (hc.ticks ht).pairwise (R := fun v w => Operator.lt.holds v w = true) ?_
    intro m n hlt hn
    rw [Operator.holds, compare?_ofNat, beq_iff_eq, Option.some.injEq, Int.compare_eq_lt]
    exact Int.ofNat_lt.mpr (Number.ofNat_lt_ofNat hlt (hn.trans_lt hclock))
  unique table t table' t' ht ht' i j row row' hi hj heq := by
    obtain ⟨a, ha, rfl, hle⟩ := hc.getElem?_rows ht hi
    obtain ⟨b, hb, rfl, hle'⟩ := hc.getElem?_rows ht' hj
    rw [a.value_creationTime, b.value_creationTime] at heq
    exact place_eq_of_tick_eq ha hb
      (eq_of_holds_ofNat (hle.trans_lt hclock) (hle'.trans_lt hclock) heq)
  bounded table t ht row hrow := by
    obtain ⟨i, hi⟩ := List.mem_iff_getElem?.mp hrow
    obtain ⟨a, -, rfl, hle⟩ := hc.getElem?_rows ht hi
    have hmagnitude : ((Number.ofNat a.tick).magnitude : Int)
        ≤ (Number.ofNat h.store.clock).magnitude := Int.ofNat_le.mpr (Number.ofNat_le_ofNat hle)
    rw [a.value_creationTime, Operator.holds, compare?_ofNat, Bool.or_eq_true, beq_iff_eq,
      beq_iff_eq, Option.some.injEq, Option.some.injEq, Int.compare_eq_lt, Int.compare_eq_eq]
    exact Int.lt_or_eq_of_le hmagnitude
  ids table t ht := by
    rw [hc.rows_eq ht, List.map_map]
    exact List.map_congr_left fun a _ => a.value_id
  count table t ht := by
    rw [Store.rowCount?, ht, Option.map_some, hc.rows_eq ht, List.length_map]
  rows table t ht := hc.rows_eq ht
  ascending table q ht hindex := by
    rw [rows_directed_ascending hindex]
    refine congrArg some (List.mergeSort_of_pairwise ?_).symm
    refine ((hc.ticks ht).sortedOn.sublist List.filter_sublist).imp ?_
    intro a b hle
    rw [Scan.compareRows_singleton, bne_gt_eq_isLE]
    exact hle
  descending table q ht hindex := by
    rw [rows_directed_descending hindex, rows_directed_ascending hindex, Option.map_some]

/-- **A store says what was done to it.** After any run of changes on the new store that asks for
    fewer than `2 ^ 53` insertions, the log has these insertions, and rows, ids, creation times,
    counts and scans are as the log says; no change has taken away, changed or moved a row that was
    there before it, and one that failed has left the tables and indexes. -/
theorem orderly_run (changes : List Change)
    (hcount : (changes.flatMap Change.insertions).length < 2 ^ 53) :
    (run changes).Orderly ∧
      (run changes).log.map (fun i => (i.table, i.doc)) = changes.flatMap Change.insertions ∧
      (∀ before after, changes = before ++ after →
        Extends (run before).store (run changes).store) ∧
      ∀ before c after e, changes = before ++ c :: after → ((run before).change c).1 = .error e →
        (run (before ++ [c])).store.tables = (run before).store.tables ∧
          (run before).store.clock ≤ (run (before ++ [c])).store.clock := by
  have hlog := asked_run changes
  have hclock : (run changes).store.clock < 2 ^ 53 := by
    rw [(consistent_run changes).clock, ← List.length_map (fun i : Insertion => (i.table, i.doc)),
      hlog]
    exact hcount
  refine ⟨(consistent_run changes).orderly hclock, hlog, ?_, ?_⟩
  · rintro before after rfl
    rw [run_append]
    exact extends_foldl (run before) after
  · intro before c after e _ he
    rw [run_append]
    exact tables_of_change_eq_error he

/-- A document for a table that is missing, documents that bring ids and a creation time of
    their own, an index of a table that is missing, and another table. -/
def sampleChanges : List Change :=
  [.insert "users" (.object [("name", .text "Eve")]),
    .addTable "users" [.object [("_id", .text "ann"), ("_creationTime", .text "long ago")],
      .object [("_id", .integer 7)]],
    .defineIndex "orders" "by_user" ["user"],
    .addTable "orders" [.object [("user", .text "ann")]],
    .insert "users" (.object [("name", .text "Bob")])]

/-- The refused insertion has a number, too, and only a text is kept as id. -/
theorem orderly_run_sample : ∃ t, (run sampleChanges).store.tables.get? "users" = some t ∧
    t.rows.map (·.value idField) = [.text "ann", .text "users:3", .text "users:5"] ∧
    t.rows.Pairwise (fun a b =>
      Operator.lt.holds (a.value creationTimeField) (b.value creationTimeField) = true) ∧
    (run sampleChanges).store.rowCount? "users" = some 3 := by
  have horderly := (orderly_run sampleChanges (by decide)).1
  obtain ⟨t, ht⟩ := Option.isSome_iff_exists.mp
    (show ((run sampleChanges).store.tables.get? "users").isSome = true by decide +kernel)
  refine ⟨t, ht, ?_, horderly.increasing "users" t ht, ?_⟩
  · rw [horderly.ids "users" t ht]
    decide +kernel
  · rw [horderly.count "users" t ht]
    decide +kernel

end History

end DocQuery
