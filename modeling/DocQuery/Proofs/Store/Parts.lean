import DocQuery.Engine.Session
import DocQuery.Proofs.Result.Stable
import DocQuery.Proofs.Store.Scan

/-!
# Scans put together part by part

A scan is opened, and then ranges of indexes, filters and directions are added to it in any order.
The parts do not meet before the rows are asked for: of the ranges and of the directions the last
one counts, of the filters all do, and a part is refused only if it is a range that the table does
not serve (`foldlM_addPart_eq_ok`). Through an index rows come in the order of its fields, which on
columns of one type is a total preorder, and the sort by it does not panic and is stable
(`exists_inIndexOrder`).

* `rows_of_parts` — which rows a scan yields and in which order, by its parts alone;
* `mixed_types_leave_creation_order` — through an index on a column that mixes types they are in
  neither the order of creation nor its reverse.
-/

namespace DocQuery

-- ── What a filter says ──────────────────────────────────────────────────────

/-- What a filter says of a row, a missing field being null. -/
def Filter.Says (row : Row) : Filter → Prop
  | .compare field operator value => operator.holds ((row.get? field).getD .null) value = true
  | .and left right => left.Says row ∧ right.Says row
  | .or left right => left.Says row ∨ right.Says row

/-- A filter holds if what it says is so, by induction on its tree. -/
theorem Filter.holds_iff_says {row : Row} (f : Filter) : f.holds row = true ↔ f.Says row := by
  induction f with
  | compare field operator value => exact Iff.rfl
  | and left right ihl ihr => rw [holds, Bool.and_eq_true, ihl, ihr, Says]
  | or left right ihl ihr => rw [holds, Bool.or_eq_true, ihl, ihr, Says]

-- ── The parts of a scan ─────────────────────────────────────────────────────

namespace ScanPart

/-- The index and the range on it that the part asks for. -/
def range? : ScanPart → Option (String × IndexRange)
  | .through index range => some (index, range)
  | _ => none

/-- The filter that the part adds. -/
def filter? : ScanPart → Option Filter
  | .filter f => some f
  | _ => none

/-- The direction that the part asks for. -/
def direction? : ScanPart → Option Direction
  | .direct d => some d
  | _ => none

/-- The last range of an index that is asked for. -/
def lastRange? (parts : List ScanPart) : Option (String × IndexRange) :=
  (parts.filterMap range?).getLast?

/-- All filters that are added. -/
def allFilters (parts : List ScanPart) : List Filter :=
  parts.filterMap filter?

/-- The last direction that is asked for. -/
def lastDirection? (parts : List ScanPart) : Option Direction :=
  (parts.filterMap direction?).getLast?

/-- The row lies within all bounds of the last range, and all filters are true of it. -/
def Select (parts : List ScanPart) (row : Row) : Prop :=
  (∀ r ∈ lastRange? parts, ∀ b ∈ r.2, b.op.toOperator.holds (row.value b.field) b.value = true) ∧
    ∀ f ∈ allFilters parts, f.Says row

/-- A row passes all parts if it is what the parts select. -/
theorem select_iff {parts : List ScanPart} {row : Row} :
    ((lastRange? parts).all (·.2.holds row) && (allFilters parts).all (·.holds row)) = true ↔
      Select parts row := by
  rw [Bool.and_eq_true, List.all_eq_true, Option.all_eq_true, Select]
  refine and_congr ?_ (forall₂_congr fun f _ => f.holds_iff_says)
  exact forall₂_congr fun r _ => List.all_eq_true

instance (parts : List ScanPart) : DecidablePred (Select parts) :=
  fun _ => decidable_of_iff _ select_iff

end ScanPart

/-- The last thing that is made of the items of a list. -/
theorem getLast?_filterMap_cons {α β : Type} (f : α → Option β) (x : α) (l : List α) :
    ((x :: l).filterMap f).getLast? = ((l.filterMap f).getLast?).or (f x) := by
  rw [List.filterMap_cons]
  cases f x with
  | none => rw [Option.or_none]
  | some y =>
      rw [List.getLast?_cons]
      cases (l.filterMap f).getLast? <;> rfl

/-- The rows of the table that the parts select, in the order of creation. -/
def StoredTable.selected (t : StoredTable) (parts : List ScanPart) : List Row :=
  t.rows.filter fun row => ScanPart.Select parts row

/-- The table has the index, and the index has a field for every bound of the range. -/
def StoredTable.ServesRange (t : StoredTable) (index : String) (range : IndexRange) : Prop :=
  ∃ fields, t.indexes.get? index = some fields ∧ ∀ b ∈ range, b.field ∈ fields

namespace Scan

open ScanPart

variable {q q' : Scan} {parts parts' : List ScanPart} {part : ScanPart} {index : String}
  {range : IndexRange}

/-- The scan with parts added, whether or not its table serves them. -/
def withParts (q : Scan) (parts : List ScanPart) : Scan :=
  { q with
    index := (lastRange? parts).elim q.index fun r =>
      some ⟨(q.source.indexes.get? r.1).getD [], r.2⟩
    filters := q.filters ++ allFilters parts
    direction := (lastDirection? parts).getD q.direction }

/-- Parts are taken up one after the other. -/
theorem withParts_cons (q : Scan) (part : ScanPart) (parts : List ScanPart) :
    q.withParts (part :: parts) = (q.withParts [part]).withParts parts := by
  have hfilters : allFilters (part :: parts) = allFilters [part] ++ allFilters parts :=
    @List.filterMap_append _ _ [part] parts filter?
  simp only [withParts, lastRange?, lastDirection?, getLast?_filterMap_cons, hfilters,
    List.append_assoc]
  cases (parts.filterMap range?).getLast? <;> cases (parts.filterMap direction?).getLast? <;> rfl

/-- A part is taken up if the index that it asks for serves it, and only then. -/
theorem addPart_eq_ok_iff : Session.addPart q part = .ok q' ↔
    (∀ r ∈ part.range?, q.source.ServesRange r.1 r.2) ∧ q' = q.withParts [part] := by
  have hadded : ∀ {q'' : Scan}, q'' = q.withParts [part] → part.range? = none →
      ((Except.ok q'' : Except StoreError Scan) = .ok q' ↔
        (∀ r ∈ part.range?, q.source.ServesRange r.1 r.2) ∧ q' = q.withParts [part]) := by
    rintro _ rfl hrange
    rw [hrange]
    exact ⟨fun h => ⟨fun _ h => (nomatch h), (Except.ok.inj h).symm⟩, fun h => h.2 ▸ rfl⟩
  cases part with
  | filter f => exact hadded rfl rfl
  | direct d =>
      refine hadded ?_ rfl
      simp [withParts, directed, lastRange?, lastDirection?, allFilters, range?, filter?,
        direction?]
  | through index range =>
      have hwith : ∀ {fields}, q.source.indexes.get? index = some fields →
          { q with index := some ⟨fields, range⟩ } = q.withParts [.through index range] := by
        intro fields hget
        simp [withParts, lastRange?, lastDirection?, allFilters, range?, filter?, direction?, hget]
      constructor
      · intro h
        obtain ⟨fields, hget, hrange⟩ := Store.through_isOk_iff.mp ⟨q', h⟩
        have hthrough := (Store.through_eq_ok hget hrange).symm.trans h
        refine ⟨?_, (Except.ok.inj hthrough).symm.trans (hwith hget)⟩
        intro r hr
        obtain rfl := Option.some.inj hr
        exact ⟨fields, hget, hrange⟩
      · rintro ⟨hserves, rfl⟩
        obtain ⟨fields, hget, hrange⟩ := hserves _ rfl
        rw [← hwith hget]
        exact Store.through_eq_ok hget hrange

/-- Parts are added up if the table serves every range among them. The induction is on the parts. -/
theorem foldlM_addPart_eq_ok : parts.foldlM Session.addPart q = .ok q' ↔
    (∀ part ∈ parts, ∀ r ∈ part.range?, q.source.ServesRange r.1 r.2) ∧
      q' = q.withParts parts := by
  induction parts generalizing q with
  | nil =>
      have hnil : q.withParts [] = q := by
        rw [withParts, allFilters, List.filterMap_nil, List.append_nil]
        rfl
      rw [hnil]
      exact ⟨fun h => ⟨fun _ h => (nomatch h), (Except.ok.inj h).symm⟩, fun h => h.2 ▸ rfl⟩
  | cons part parts ih =>
      rw [List.foldlM_cons, bind_eq_ok_iff, List.forall_mem_cons, withParts_cons]
      constructor
      · rintro ⟨mid, hmid, hrest⟩
        obtain ⟨hserves, rfl⟩ := addPart_eq_ok_iff.mp hmid
        obtain ⟨hothers, rfl⟩ := ih.mp hrest
        exact ⟨⟨hserves, hothers⟩, rfl⟩
      · rintro ⟨⟨hserves, hothers⟩, rfl⟩
        exact ⟨_, addPart_eq_ok_iff.mpr ⟨hserves, rfl⟩, ih.mpr ⟨hothers, rfl⟩⟩

/-- A range is refused for an index that is not there, or for a bound on a field that the index
    does not have. -/
theorem through_eq_error_iff : (∃ e, q.through index range = .error e) ↔
    q.source.indexes.get? index = none ∨
      ∃ fields, q.source.indexes.get? index = some fields ∧ ∃ b ∈ range, b.field ∉ fields := by
  have hnot : (∃ e, q.through index range = .error e) ↔
      ¬ ∃ q', q.through index range = .ok q' := by
    cases q.through index range with
    | error e => exact ⟨fun _ ⟨_, h⟩ => (nomatch h), fun _ => ⟨e, rfl⟩⟩
    | ok q' => exact ⟨fun ⟨_, h⟩ => (nomatch h), fun h => absurd ⟨q', rfl⟩ h⟩
  rw [hnot, Store.through_isOk_iff]
  cases q.source.indexes.get? index with
  | none => simp
  | some fields => simp

-- ── The order of an index ───────────────────────────────────────────────────

/-- The rows have equal values in all fields. -/
def tied (fields : List String) (a b : Row) : Bool :=
  fields.all fun f => (a.value f).equal (b.value f)

/-- The first field that tells the rows apart puts the first row before the second. -/
def Precedes (fields : List String) (direction : Direction) (a b : Row) : Prop :=
  ∃ front f back, fields = front ++ f :: back ∧
    (∀ g ∈ front, (a.value g).equal (b.value g) = true) ∧
    Value.collateIn direction (a.value f) (b.value f) = .lt

variable {fields : List String} {direction : Direction} {rows : List Row} {a b : Row}

/-- Rows compare by the first field that tells them apart. -/
theorem compareRows_eq_foldr (fields : List String) (direction : Direction) (a b : Row) :
    compareRows fields direction a b = fields.foldr
      (fun f later => (Value.collateIn direction (a.value f) (b.value f)).then later) .eq := by
  cases direction with
  | ascending => rfl
  | descending =>
      rw [compareRows]
      induction fields with
      | nil => rfl
      | cons f fields ih =>
          have hthen : ∀ o later : Ordering, (o.then later).swap = o.swap.then later.swap := by
            decide
          rw [List.foldr_cons, ← ih, Value.collateIn, Value.collate_swap]
          exact hthen _ _

/-- Within one kind rows compare as equal if they tie. -/
theorem compareRows_eq_iff (hkind : ∀ f ∈ fields, HasKind f rows) (ha : a ∈ rows) (hb : b ∈ rows) :
    compareRows fields direction a b = .eq ↔ tied fields a b = true := by
  rw [compareRows_eq_foldr, foldr_then_eq_iff, tied, List.all_eq_true]
  refine forall₂_congr fun f hf => ?_
  obtain ⟨kind, hfits⟩ := hkind f hf
  exact Value.collateIn_eq_iff (hfits a ha) (hfits b hb)

/-- Within one kind a row compares as less if it precedes the other. -/
theorem compareRows_lt_iff (hkind : ∀ f ∈ fields, HasKind f rows) (ha : a ∈ rows) (hb : b ∈ rows) :
    compareRows fields direction a b = .lt ↔ Precedes fields direction a b := by
  rw [compareRows_eq_foldr, foldr_then_lt_iff]
  refine exists₃_congr fun front f back => and_congr_right ?_
  rintro rfl
  refine and_congr_left' (forall₂_congr fun g hg => ?_)
  obtain ⟨kind, hfits⟩ := hkind g (List.mem_append_left _ hg)
  exact Value.collateIn_eq_iff (hfits a ha) (hfits b hb)

/-- The rows are those given, none comes before an earlier one, and those that are tied are in the
    order in which they were given. -/
structure InIndexOrder (fields : List String) (direction : Direction) (rows result : List Row) :
    Prop where
  perm : result.Perm rows
  sorted : result.Pairwise fun a b => ¬ Precedes fields direction b a
  ties : ∀ a ∈ rows, result.filter (tied fields a) = rows.filter (tied fields a)

/-- Where each column has one kind of values, the sort by an index gives its order. -/
theorem exists_inIndexOrder (hkind : ∀ f ∈ fields, HasKind f rows) (direction : Direction) :
    ∃ result, Sorting.stableSort referenceBytes (compareRows fields direction) rows = some result ∧
      InIndexOrder fields direction rows result := by
  have hcmp := transCmp_compareRows hkind direction
  obtain ⟨hsorted, hties⟩ := stable_mergeSort hcmp
  have hmem := List.mergeSort_perm rows fun a b => compareRows fields direction a b != .gt
  have htied : ∀ {sub : List Row}, sub ⊆ rows → ∀ a ∈ rows,
      sub.filter (tied fields a) = sub.filter (compareRows fields direction a · == .eq) := by
    intro sub hsub a ha
    refine List.filter_congr fun b hb => Bool.eq_iff_iff.mpr ?_
    rw [beq_iff_eq, compareRows_eq_iff hkind ha (hsub hb)]
  refine ⟨_, Sorting.stableSort_eq_some hcmp, hmem, hsorted.imp_of_mem ?_, ?_⟩
  · intro a b ha hb hle hlt
    have ha := hmem.subset ha
    have hb := hmem.subset hb
    have hswap : compareRows fields direction a b = (compareRows fields direction b a).swap :=
      hcmp.eq_swap (a := ⟨a, ha⟩) (b := ⟨b, hb⟩)
    rw [hswap, (compareRows_lt_iff hkind hb ha).mpr hlt] at hle
    exact nomatch hle
  · intro a ha
    rw [htied hmem.subset a ha, htied (List.Subset.refl _) a ha]
    exact hties a ha

-- ── What the parts ask for ──────────────────────────────────────────────────

variable {t : StoredTable} {table : String}

/-- What parts ask of the rows of a table: the rows that they select, through an index in its
    order, and otherwise in the order of creation or its reverse. No rows are given where the sort
    panics, which it does only if there are more than twenty and a column of the index mixes
    types. -/
structure AsAsked (t : StoredTable) (parts : List ScanPart) (result : Option (List Row)) :
    Prop where
  perm : ∀ rows, result = some rows → rows.Perm (t.selected parts)
  short : (t.selected parts).length ≤ 20 → result.isSome = true
  unindexed : lastRange? parts = none →
    result = some (match (lastDirection? parts).getD .ascending with
      | .ascending => t.selected parts
      | .descending => (t.selected parts).reverse)
  indexed : ∀ index range, lastRange? parts = some (index, range) →
    ∃ fields, t.indexes.get? index = some fields ∧ ((∀ f ∈ fields, HasOneType f t.rows) →
      ∃ rows, result = some rows ∧
        InIndexOrder fields ((lastDirection? parts).getD .ascending) (t.selected parts) rows)

/-- The rows that a scan admits are those that its parts select. -/
theorem filter_admits_whole (table : String) (t : StoredTable) (parts : List ScanPart) :
    t.rows.filter ((whole table t).withParts parts).admits = t.selected parts := by
  refine List.filter_congr fun row _ => ?_
  rw [Bool.eq_iff_iff, decide_eq_true_iff, ← select_iff, admits, withParts, whole,
    List.nil_append]
  cases lastRange? parts <;> rfl

/-- Through an index the rows are the selected ones, sorted by its fields. -/
theorem rows_whole_of_range (hrange : lastRange? parts = some (index, range))
    (hget : t.indexes.get? index = some fields) : ((whole table t).withParts parts).rows =
      Sorting.stableSort referenceBytes
        (compareRows fields ((lastDirection? parts).getD .ascending)) (t.selected parts) := by
  have hindex : ((whole table t).withParts parts).index = some ⟨fields, range⟩ := by
    rw [withParts, hrange]
    show some (⟨(t.indexes.get? index).getD [], range⟩ : ScanIndex) = _
    rw [hget, Option.getD_some]
  rw [← filter_admits_whole table t parts, rows, hindex]
  rfl

/-- A scan of a whole table returns what its parts ask for. -/
theorem asAsked_whole (hkeys : ∀ row ∈ t.rows, row.Keyable)
    (hserves : ∀ part ∈ parts, ∀ r ∈ part.range?, t.ServesRange r.1 r.2) :
    AsAsked t parts ((whole table t).withParts parts).rows := by
  have hselected := filter_admits_whole table t parts
  refine ⟨?_, ?_, ?_, ?_⟩
  · rw [← hselected]
    exact fun rows hrows => rows_perm hrows
  · rw [← hselected]
    exact fun hlength => isSome_rows_of_length_le hlength
  · intro hrange
    have hindex : ((whole table t).withParts parts).index = none := by
      rw [withParts, hrange]
      rfl
    rw [rows_of_unindexed hindex, ← hselected]
    rfl
  · intro index range hrange
    obtain ⟨part, hpart, hr⟩ := List.mem_filterMap.mp (List.mem_of_getLast? hrange)
    obtain ⟨fields, hget, -⟩ := hserves part hpart _ hr
    refine ⟨fields, hget, fun htype => ?_⟩
    have hkind : ∀ f ∈ fields, HasKind f (t.selected parts) :=
      fun f hf => ((htype f hf).hasKind hkeys).subset List.filter_sublist.subset
    rw [rows_whole_of_range hrange hget]
    exact exists_inIndexOrder hkind _

/-- The parts are the same, but for where the filters stand and in which order. -/
structure Rearranges (parts parts' : List ScanPart) : Prop where
  others : parts'.filter (·.filter?.isNone) = parts.filter (·.filter?.isNone)
  filters : (allFilters parts').Perm (allFilters parts)

/-- What filters do not say is said by the other parts. -/
theorem Rearranges.filterMap_eq {α : Type} (h : Rearranges parts parts') {f : ScanPart → Option α}
    (hf : ∀ filter, f (.filter filter) = none) : parts'.filterMap f = parts.filterMap f := by
  have hothers : ∀ parts : List ScanPart,
      parts.filterMap f = (parts.filter (·.filter?.isNone)).filterMap f := by
    intro parts
    rw [List.filterMap_filter]
    refine List.filterMap_congr fun part _ => ?_
    cases part with
    | filter filter => exact hf filter
    | through | direct => rfl
  rw [hothers, hothers parts, h.others]

/-- A rearrangement is served as well. -/
theorem Rearranges.serves (h : Rearranges parts parts')
    (hserves : ∀ part ∈ parts, ∀ r ∈ part.range?, t.ServesRange r.1 r.2) :
    ∀ part ∈ parts', ∀ r ∈ part.range?, t.ServesRange r.1 r.2 := by
  intro part hpart r hr
  have hmem : r ∈ parts'.filterMap range? := List.mem_filterMap.mpr ⟨part, hpart, hr⟩
  rw [h.filterMap_eq fun _ => rfl] at hmem
  obtain ⟨part', hpart', hr'⟩ := List.mem_filterMap.mp hmem
  exact hserves part' hpart' r hr'

/-- The rows of a scan do not depend on the order of its filters. -/
theorem rows_of_perm {filters : List Filter} (h : filters.Perm q.filters) :
    ({ q with filters } : Scan).rows = q.rows := by
  have hadmits : ({ q with filters } : Scan).admits = q.admits := by
    funext row
    rw [admits, admits, h.all_eq]
  rw [rows, rows, hadmits]

/-- A rearrangement returns the same rows in the same order. -/
theorem Rearranges.rows_eq (h : Rearranges parts parts') :
    ((whole table t).withParts parts').rows = ((whole table t).withParts parts).rows := by
  have hwith : (whole table t).withParts parts'
      = { (whole table t).withParts parts with filters := allFilters parts' } := by
    rw [withParts, lastRange?, lastDirection?, h.filterMap_eq fun _ => rfl,
      h.filterMap_eq fun _ => rfl]
    rfl
  rw [hwith]
  exact rows_of_perm h.filters

/-- **A scan yields what its parts ask for.** A range is refused just if the table lacks the index
    or the index lacks the field of a bound. If none is, the rows are those within the last range
    of which all filters are true: through an index whose columns hold one type each in the order
    of its fields in the last direction, with ties in the order of creation; through an index that
    mixes types in some order, unless the sort panics, which takes more than twenty rows; without
    an index in the order of creation or its reverse. A count gives the first of them, and it makes
    no difference where among the other parts the filters were added. -/
theorem rows_of_parts {store : Store} (hstore : store.Reachable Document.IsJson)
    (hopen : store.scan table = .ok q) : ∃ t, store.tables.get? table = some t ∧
      ∀ parts, ((∃ q', parts.foldlM Session.addPart q = .ok q') ↔
          ∀ part ∈ parts, ∀ r ∈ part.range?, t.ServesRange r.1 r.2) ∧
        ∀ q', parts.foldlM Session.addPart q = .ok q' →
          (∀ index range, (∃ e, Session.addPart q' (.through index range) = .error e) ↔
            t.indexes.get? index = none ∨
              ∃ fields, t.indexes.get? index = some fields ∧ ∃ b ∈ range, b.field ∉ fields) ∧
          AsAsked t parts (q'.take none) ∧
          (∀ n, q'.take (some n) = (q'.take none).map (·.take n)) ∧
          ∀ parts', Rearranges parts parts' →
            ∃ q'', parts'.foldlM Session.addPart q = .ok q'' ∧
              ∀ count, q''.take count = q'.take count := by
  obtain ⟨t, ht, rfl⟩ := Store.scan_eq_ok_iff.mp hopen
  refine ⟨t, ht, fun parts => ⟨?_, ?_⟩⟩
  · constructor
    · rintro ⟨q', h⟩
      exact (foldlM_addPart_eq_ok.mp h).1
    · intro hserves
      exact ⟨_, foldlM_addPart_eq_ok.mpr ⟨hserves, rfl⟩⟩
  · intro q' h
    obtain ⟨hserves, rfl⟩ := foldlM_addPart_eq_ok.mp h
    refine ⟨fun index range => through_eq_error_iff, asAsked_whole (hstore.keyable ht) hserves,
      fun n => rfl, ?_⟩
    intro parts' hparts
    refine ⟨_, foldlM_addPart_eq_ok.mpr ⟨hparts.serves hserves, rfl⟩, ?_⟩
    intro count
    cases count with
    | none => exact hparts.rows_eq
    | some n => exact congrArg (Option.map (List.take n)) hparts.rows_eq

/-- Parts in no particular order: of two ranges and two directions the last ones count. -/
def sampleParts : List ScanPart :=
  [.direct .ascending, .through "by_age" (IndexRange.single "age" .null),
    .filter (.or (.compare "name" .eq (.text "bob")) (.compare "age" .gt (.number (.ofNat 20)))),
    .direct .descending, .through "by_age" [], .filter (.compare "_id" .notEq (.text "users:3"))]

/-- The table of users in the sample. -/
def sampleTable : StoredTable :=
  (Store.sample.tables.get? "users").getD .empty

/-- Two index calls, the last of which counts, with filters around them. -/
theorem rows_of_parts_sample : Store.sample.Reachable Document.IsJson ∧
    Store.sample.scan "users" = .ok (whole "users" sampleTable) ∧
    ∃ q' rows, sampleParts.foldlM Session.addPart (whole "users" sampleTable) = .ok q' ∧
      q'.take none = some rows ∧
      InIndexOrder ["age"] .descending (sampleTable.selected sampleParts) rows ∧
      rows.map (·.value "name") = [.text "bob", .text "Ann"] ∧
      q'.take (some 1) = some (rows.take 1) := by
  have hstore := Store.reachable_sample.mono fun _ h => h.1
  have hopen : Store.sample.scan "users" = .ok (whole "users" sampleTable) :=
    eq_ok_of_toOption (by decide +kernel)
  obtain ⟨t, ht, hparts⟩ := rows_of_parts hstore hopen
  obtain rfl : sampleTable = t := Option.some.inj
    ((show some sampleTable = Store.sample.tables.get? "users" by decide +kernel).trans ht)
  obtain ⟨q', hq'⟩ := exists_eq_ok_of_isOk
    (show (sampleParts.foldlM Session.addPart (whole "users" sampleTable)).isOk = true by
      decide +kernel)
  obtain ⟨-, hasked, htake, -⟩ := (hparts sampleParts).2 q' hq'
  have hget : sampleTable.indexes.get? "by_age" = some ["age"] := by decide +kernel
  have hage : HasOneType "age" sampleTable.rows := ⟨"number", by decide +kernel⟩
  obtain ⟨fields, hfields, horder⟩ := hasked.indexed "by_age" [] rfl
  obtain rfl := Option.some.inj (hget.symm.trans hfields)
  obtain ⟨rows, hrows, hsorted⟩ := horder (List.forall_mem_singleton.mpr hage)
  refine ⟨hstore, hopen, q', rows, hq', hrows, hsorted, ?_, ?_⟩
  · have hnames : (((whole "users" sampleTable).withParts sampleParts).take none).map
        (·.map (·.value "name")) = some [.text "bob", .text "Ann"] := by decide +kernel
    obtain ⟨-, rfl⟩ := foldlM_addPart_eq_ok.mp hq'
    rw [hrows] at hnames
    exact Option.some.inj hnames
  · rw [htake, hrows, Option.map_some]

def sampleMixedDocs : List Document :=
  [.object [("v", .text "b")], .object [("v", .integer 1)], .object [("v", .text "a")]]

/-- A store with a table that has an index on a column of texts and numbers. -/
def sampleMixed : Store :=
  ((Store.empty.addTable "t" sampleMixedDocs).defineIndex "t" "by_v" ["v"]).toOption.getD .empty

def sampleMixedTable : StoredTable :=
  (sampleMixed.tables.get? "t").getD .empty

/-- The table with mixed types is one that insertions lead to. -/
theorem reachable_sampleMixed : sampleMixed.Reachable Document.IsJson := by
  have hdocs : ∀ d ∈ sampleMixedDocs, d.IsJson := by
    simp only [sampleMixedDocs, List.forall_mem_cons, List.not_mem_nil, false_implies,
      implies_true, and_true]
    refine ⟨.object ?_, .object ?_, .object ?_⟩
    all_goals refine List.forall_mem_singleton.mpr ?_
    · exact .text _
    · exact .integer (by decide) (by decide)
    · exact .text _
  have hindex : (Store.empty.addTable "t" sampleMixedDocs).defineIndex "t" "by_v" ["v"]
      = .ok sampleMixed := eq_ok_of_toOption (by decide +kernel)
  exact (Store.Reachable.empty.addTable "t" hdocs).defineIndex hindex

theorem not_hasOneType_sampleMixed : ¬ HasOneType "v" sampleMixedTable.rows := by
  rintro ⟨type, htype⟩
  have hvalues : sampleMixedTable.rows.map (·.value "v")
      = [.text "b", .number (.ofNat 1), .text "a"] := by decide +kernel
  have htypes : ∀ v ∈ sampleMixedTable.rows.map (·.value "v"), v = .null ∨ v.typeName = type :=
    List.forall_mem_map.mpr htype
  rw [hvalues, List.forall_mem_cons, List.forall_mem_cons] at htypes
  obtain ⟨htext | htext, hnumber | hnumber, -⟩ := htypes
  · exact nomatch htext
  · exact nomatch htext
  · exact nomatch hnumber
  · exact absurd (htext.trans hnumber.symm) (by decide)

/-- Texts and numbers are in the order of the index, too, which is neither that of creation nor its
    reverse. -/
theorem mixed_types_leave_creation_order : sampleMixed.Reachable Document.IsJson ∧
    sampleMixed.scan "t" = .ok (whole "t" sampleMixedTable) ∧
    sampleMixedTable.indexes.get? "by_v" = some ["v"] ∧ ¬ HasOneType "v" sampleMixedTable.rows ∧
    ∃ q' rows, [.through "by_v" []].foldlM Session.addPart (whole "t" sampleMixedTable) = .ok q' ∧
      q'.take none = some rows ∧ rows ≠ sampleMixedTable.selected [.through "by_v" []] ∧
      rows ≠ (sampleMixedTable.selected [.through "by_v" []]).reverse := by
  have hget : sampleMixedTable.indexes.get? "by_v" = some ["v"] := by decide +kernel
  have hserves : ∀ part ∈ [ScanPart.through "by_v" []], ∀ r ∈ part.range?,
      sampleMixedTable.ServesRange r.1 r.2 := by
    refine List.forall_mem_singleton.mpr ?_
    intro r hr
    obtain rfl := Option.some.inj hr
    exact ⟨["v"], hget, fun _ h => (nomatch h)⟩
  obtain ⟨rows, hrows⟩ : ∃ rows,
      ((whole "t" sampleMixedTable).withParts [.through "by_v" []]).take none = some rows :=
    Option.isSome_iff_exists.mp (by decide +kernel)
  refine ⟨reachable_sampleMixed, eq_ok_of_toOption (by decide +kernel), hget,
    not_hasOneType_sampleMixed, _, rows, foldlM_addPart_eq_ok.mpr ⟨hserves, rfl⟩, hrows, ?_⟩
  constructor
  all_goals
    rintro rfl
    revert hrows
    decide +kernel

end Scan

end DocQuery
