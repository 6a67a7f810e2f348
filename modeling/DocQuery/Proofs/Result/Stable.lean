import DocQuery.Proofs.Result.Sort

/-!
# Sorting rows by several keys

Where each key reads values of one type, the order by all keys is a total preorder: it is built
key by key from the orders of the values (`transCmp_compareAll`). A sort by such an order does not
panic and is stable (`exists_stablySorted`), and there is only one stable sort: two of them agree
on the first row, since it is tied with the first of the other one and within its ties the order
is given (`eq_of_filter_eq`).

* `sortRows_stably` — what the order says, that the rows are sorted by it with ties in their
  old order, and that descending is the reverse of ascending but for ties.
-/

namespace DocQuery

-- ── One comparison after the other ──────────────────────────────────────────

section Lexicographic

variable {κ : Type} {cmp : κ → Ordering} {keys : List κ}

/-- A comparison by several keys ties if each of them does. -/
theorem foldr_then_eq_iff : keys.foldr (fun k later => (cmp k).then later) .eq = .eq
    ↔ ∀ k ∈ keys, cmp k = .eq := by
  induction keys with
  | nil => exact iff_of_true rfl fun _ h => absurd h List.not_mem_nil
  | cons key keys ih => rw [List.foldr_cons, Ordering.then_eq_eq, List.forall_mem_cons, ih]

/-- The first comparison that tells two things apart decides. -/
theorem foldr_then_lt_iff : keys.foldr (fun k later => (cmp k).then later) .eq = .lt
    ↔ ∃ front k back, keys = front ++ k :: back ∧ (∀ g ∈ front, cmp g = .eq) ∧ cmp k = .lt := by
  induction keys with
  | nil =>
      refine iff_of_false (fun h => (nomatch h)) ?_
      rintro ⟨front, key, back, hkeys, -⟩
      exact absurd hkeys (by simp)
  | cons key keys ih =>
      rw [List.foldr_cons, Ordering.then_eq_lt, ih]
      constructor
      · rintro (hlt | ⟨heq, front, k, back, rfl, hfront, hlt⟩)
        · exact ⟨[], key, keys, rfl, fun _ h => absurd h List.not_mem_nil, hlt⟩
        · exact ⟨key :: front, k, back, rfl, List.forall_mem_cons.mpr ⟨heq, hfront⟩, hlt⟩
      · rintro ⟨front, k, back, hkeys, hfront, hlt⟩
        cases front with
        | nil =>
            obtain ⟨rfl, rfl⟩ := List.cons.inj hkeys
            exact Or.inl hlt
        | cons k' front =>
            obtain ⟨rfl, rfl⟩ := List.cons.inj hkeys
            obtain ⟨hk, hfront⟩ := List.forall_mem_cons.mp hfront
            exact Or.inr ⟨hk, front, k, back, rfl, hfront, hlt⟩

end Lexicographic

-- ── The order by all keys ───────────────────────────────────────────────────

namespace OrderKey

variable {table : String} {key : OrderKey} {keys : List OrderKey} {rows : List Row} {a b : Row}

/-- The value of a row that a key orders it by, null if it is missing. -/
def valueIn (table : String) (key : OrderKey) (row : Row) : Value :=
  row.resolve key.table key.field table

/-- The values that a key reads are nulls and values of one kind. -/
def ReadsKind (table : String) (rows : List Row) (key : OrderKey) : Prop :=
  ∃ kind : Value.Kind, ∀ row ∈ rows, (key.valueIn table row).Fits kind

/-- A key compares what it reads in both rows. -/
theorem compareRows_eq (table : String) (key : OrderKey) (a b : Row) :
    key.compareRows table a b
      = Value.collateIn key.direction (key.valueIn table a) (key.valueIn table b) := by
  rw [compareRows]
  cases key.direction <;> rfl

/-- Within a kind rows tie if these values are equal. -/
theorem compareRows_eq_iff (hkind : key.ReadsKind table rows) (ha : a ∈ rows) (hb : b ∈ rows) :
    key.compareRows table a b = .eq
      ↔ (key.valueIn table a).equal (key.valueIn table b) = true := by
  obtain ⟨kind, hfits⟩ := hkind
  rw [compareRows_eq]
  exact Value.collateIn_eq_iff (hfits a ha) (hfits b hb)

/-- Null comes last in ascending and first in descending order. -/
theorem compareRows_null (ha : (key.valueIn table a).isNull = true)
    (hb : (key.valueIn table b).isNull = false) :
    key.compareRows table a b = if key.direction = .ascending then .gt else .lt := by
  rw [compareRows_eq]
  cases key.direction with
  | ascending => rw [Value.collateIn, Value.collate, ha, hb, if_pos rfl]
  | descending => rw [Value.collateIn, Value.collate, ha, hb, if_neg (by decide)]

/-- Within a kind a key compares transitively. -/
theorem transCmp_compareRows (hkind : key.ReadsKind table rows) :
    Std.TransCmp fun a b : { row // row ∈ rows } => key.compareRows table a.1 b.1 := by
  obtain ⟨kind, hfits⟩ := hkind
  simp only [compareRows_eq]
  refine { eq_swap := ?_, isLE_trans := ?_ }
  · intro a b
    cases key.direction <;> exact Value.collate_swap _ _
  · intro a b c
    exact Value.collateIn_isLE_trans (hfits a.1 a.2) (hfits b.1 b.2) (hfits c.1 c.2)

/-- On rows of which each key reads one kind the order by all keys is a total preorder. The
    induction is on the keys. -/
theorem transCmp_compareAll (hkind : ∀ key ∈ keys, key.ReadsKind table rows) :
    Std.TransCmp fun a b : { row // row ∈ rows } => compareAll table keys a.1 b.1 := by
  induction keys with
  | nil => exact { eq_swap := rfl, isLE_trans := fun _ _ => rfl }
  | cons key keys ih =>
      have hfirst := transCmp_compareRows (hkind key List.mem_cons_self)
      have hlater := ih fun k hk => hkind k (List.mem_cons_of_mem _ hk)
      exact inferInstanceAs (Std.TransCmp (compareLex
        (fun a b : { row // row ∈ rows } => key.compareRows table a.1 b.1)
        fun a b : { row // row ∈ rows } => compareAll table keys a.1 b.1))

/-- A later key counts where the earlier ones tie. -/
theorem compareAll_cons (table : String) (key : OrderKey) (keys : List OrderKey) (a b : Row) :
    compareAll table (key :: keys) a b
      = (key.compareRows table a b).then (compareAll table keys a b) :=
  rfl

/-- Rows are tied if all keys read equal values of them. -/
theorem compareAll_eq_iff (hkind : ∀ key ∈ keys, key.ReadsKind table rows) (ha : a ∈ rows)
    (hb : b ∈ rows) : compareAll table keys a b = .eq
      ↔ ∀ key ∈ keys, (key.valueIn table a).equal (key.valueIn table b) = true := by
  rw [compareAll, foldr_then_eq_iff]
  exact forall₂_congr fun key hkey => compareRows_eq_iff (hkind key hkey) ha hb

/-- A row comes before another if the first key that tells them apart says so. -/
theorem compareAll_lt_iff (hkind : ∀ key ∈ keys, key.ReadsKind table rows) (ha : a ∈ rows)
    (hb : b ∈ rows) : compareAll table keys a b = .lt
      ↔ ∃ front key back, keys = front ++ key :: back ∧
        (∀ k ∈ front, (k.valueIn table a).equal (k.valueIn table b) = true) ∧
        key.compareRows table a b = .lt := by
  rw [compareAll, foldr_then_lt_iff]
  refine exists₃_congr fun front key back => and_congr_right ?_
  rintro rfl
  refine and_congr_left' (forall₂_congr fun k hk => ?_)
  exact compareRows_eq_iff (hkind k (List.mem_append_left _ hk)) ha hb

end OrderKey

-- ── Sorted rows ─────────────────────────────────────────────────────────────

/-- The rows are those given, in the order of the keys, and rows that are tied are in the order
    in which they were given. -/
structure StablySorted (keys : List OrderKey) (table : String) (rows result : List Row) : Prop where
  perm : result.Perm rows
  sorted : result.Pairwise fun a b => (OrderKey.compareAll table keys a b).isLE = true
  ties : ∀ a ∈ rows, result.filter (OrderKey.compareAll table keys a · == .eq)
    = rows.filter (OrderKey.compareAll table keys a · == .eq)

section Sorted

open OrderKey

variable {keys : List OrderKey} {table : String} {rows result sorted : List Row}

/-- By keys of one kind each the sort gives rows, stably sorted. -/
theorem exists_stablySorted (hkind : ∀ key ∈ keys, key.ReadsKind table rows) :
    ∃ sorted, sortRows keys table rows = some sorted ∧ StablySorted keys table rows sorted := by
  have hcmp := transCmp_compareAll hkind
  obtain ⟨hsorted, hties⟩ := stable_mergeSort hcmp
  exact ⟨_, sortRows_eq_some hcmp, List.mergeSort_perm _ _, hsorted, hties⟩

/-- There is one stable sort. -/
theorem StablySorted.unique (h : StablySorted keys table rows result)
    (h' : StablySorted keys table rows sorted)
    (hkind : ∀ key ∈ keys, key.ReadsKind table rows) : result = sorted := by
  have hcmp := transCmp_compareAll hkind
  refine eq_of_filter_eq (r := fun a b => (compareAll table keys a b).isLE) h.sorted h'.sorted
    ?_ (h.perm.trans h'.perm.symm) ?_
  · intro a ha
    have hself : (compareAll table keys a a).swap = compareAll table keys a a :=
      (hcmp.eq_swap (a := ⟨a, h.perm.subset ha⟩) (b := ⟨a, h.perm.subset ha⟩)).symm
    revert hself
    cases compareAll table keys a a <;> decide
  · intro a ha
    have ha := h.perm.subset ha
    rw [← filter_tied_eq hcmp h.perm.subset ha, ← filter_tied_eq hcmp h'.perm.subset ha,
      h.ties a ha, h'.ties a ha]

/-- The order by one key is that of the values it reads. -/
theorem compareAll_single (key : OrderKey) (a b : Row) : compareAll table [key] a b
    = Value.collateIn key.direction (key.valueIn table a) (key.valueIn table b) := by
  have hthen : ∀ o : Ordering, o.then .eq = o := by decide
  rw [compareAll_cons, compareRows_eq]
  exact hthen _

/-- Rows sorted by one key have its values in order. -/
theorem pairwise_sortRows {key : OrderKey} (hkind : key.ReadsKind table rows)
    (h : sortRows [key] table rows = some sorted) : sorted.Pairwise fun a b =>
      (Value.collateIn key.direction (key.valueIn table a) (key.valueIn table b)).isLE = true := by
  obtain ⟨_, hsome, hsort⟩ := exists_stablySorted (List.forall_mem_singleton.mpr hkind)
  obtain rfl := Option.some.inj (hsome.symm.trans h)
  refine hsort.sorted.imp ?_
  intro a b hle
  rw [compareAll_single] at hle
  exact hle

/-- By a key of one kind the rows can be sorted in either direction; and the values in descending
    order are those in ascending order turned around, but for ties. -/
theorem exists_sortRows_descending {key : OrderKey} (hkind : key.ReadsKind table rows) :
    ∃ down up, sortRows [{ key with direction := .descending }] table rows = some down ∧
      sortRows [{ key with direction := .ascending }] table rows = some up ∧
      (down.map (key.valueIn table)).Forall₂ (fun v w => v.equal w = true)
        (up.map (key.valueIn table)).reverse := by
  have hkindDown : ({ key with direction := .descending } : OrderKey).ReadsKind table rows := hkind
  have hkindUp : ({ key with direction := .ascending } : OrderKey).ReadsKind table rows := hkind
  obtain ⟨down, hdown, -⟩ := exists_stablySorted (List.forall_mem_singleton.mpr hkindDown)
  obtain ⟨up, hup, -⟩ := exists_stablySorted (List.forall_mem_singleton.mpr hkindUp)
  refine ⟨down, up, hdown, hup, ?_⟩
  have hdownPerm := sortRows_perm hdown
  have hupPerm := sortRows_perm hup
  have hdown := pairwise_sortRows hkindDown hdown
  have hup := pairwise_sortRows hkindUp hup
  obtain ⟨kind, hfits⟩ := hkind
  rw [← List.map_reverse]
  have hfits' : ∀ v ∈ down.map (key.valueIn table), v.Fits kind :=
    List.forall_mem_map.mpr fun row hrow => hfits row (hdownPerm.subset hrow)
  exact Value.forall₂_equal_of_perm
    ((hdownPerm.trans ((List.reverse_perm _).trans hupPerm).symm).map _) hfits'
    (List.pairwise_map.mpr hdown) (List.pairwise_map.mpr (List.pairwise_reverse.mpr hup))

/-- **Sorting is stable, by a total preorder.** Where each key reads nulls and values of one kind,
    the order by all keys is a total preorder that ties exactly the rows of equal values; the
    first key that tells two rows apart decides, and null is last ascending and first descending.
    The sort does not panic. The rows are sorted by that order with ties in their old order, which
    only one arrangement is; and by one key descending is ascending turned around, but for equal
    values. -/
theorem sortRows_stably (hkind : ∀ key ∈ keys, key.ReadsKind table rows) :
    Std.TransCmp (fun a b : { row // row ∈ rows } => compareAll table keys a.1 b.1) ∧
    (∀ a ∈ rows, ∀ b ∈ rows, (compareAll table keys a b = .eq
      ↔ ∀ key ∈ keys, (key.valueIn table a).equal (key.valueIn table b) = true) ∧
      (compareAll table keys a b = .lt ↔ ∃ front key back, keys = front ++ key :: back ∧
        (∀ k ∈ front, (k.valueIn table a).equal (k.valueIn table b) = true) ∧
        key.compareRows table a b = .lt)) ∧
    (∀ key : OrderKey, ∀ a b, (key.valueIn table a).isNull = true →
      (key.valueIn table b).isNull = false →
      key.compareRows table a b = if key.direction = .ascending then .gt else .lt) ∧
    (∃ sorted, sortRows keys table rows = some sorted ∧ StablySorted keys table rows sorted ∧
      ∀ result, StablySorted keys table rows result → result = sorted) ∧
    ∀ key ∈ keys, ∃ down up,
      sortRows [{ key with direction := .descending }] table rows = some down ∧
      sortRows [{ key with direction := .ascending }] table rows = some up ∧
      (down.map (key.valueIn table)).Forall₂ (fun v w => v.equal w = true)
        (up.map (key.valueIn table)).reverse := by
  obtain ⟨sorted, hsome, hsort⟩ := exists_stablySorted hkind
  refine ⟨transCmp_compareAll hkind, ?_, fun _ _ _ => compareRows_null,
    ⟨sorted, hsome, hsort, fun _ h => h.unique hsort hkind⟩,
    fun key hkey => exists_sortRows_descending (hkind key hkey)⟩
  intro a ha b hb
  exact ⟨compareAll_eq_iff hkind ha hb, compareAll_lt_iff hkind ha hb⟩

/-- A row of people. -/
def samplePerson (name age : Value) (note : String) : Row :=
  Keyed.ofList [("name", name), ("age", age), ("note", .text note)]

/-- People, two of them tied, one without a name, and one whose age is qualified. -/
def samplePeople : List Row :=
  [samplePerson (.text "banana") (.number (.ofNat 2)) "first",
   samplePerson .null (.number (.ofNat 1)) "",
   samplePerson (.text "Apple") (.number (.ofNat 3)) "",
   Keyed.ofList [("t.name", .text "apple"), ("t.age", .number (.ofNat 5))],
   samplePerson (.text "banana") .null "",
   samplePerson (.text "banana") (.number (.ofNat 2)) "second"]

/-- Two keys, the second of which is qualified and descending, with a null and a tie. -/
theorem sortRows_stably_sample :
    (∀ key ∈ [⟨none, "name", .ascending⟩, (⟨some "t", "age", .descending⟩ : OrderKey)],
      key.ReadsKind "t" samplePeople) ∧
    sortRows [⟨none, "name", .ascending⟩, ⟨some "t", "age", .descending⟩] "t" samplePeople = some
      [Keyed.ofList [("t.name", .text "apple"), ("t.age", .number (.ofNat 5))],
       samplePerson (.text "Apple") (.number (.ofNat 3)) "",
       samplePerson (.text "banana") .null "",
       samplePerson (.text "banana") (.number (.ofNat 2)) "first",
       samplePerson (.text "banana") (.number (.ofNat 2)) "second",
       samplePerson .null (.number (.ofNat 1)) ""] := by
  have hkind : ∀ key ∈ [⟨none, "name", .ascending⟩, (⟨some "t", "age", .descending⟩ : OrderKey)],
      key.ReadsKind "t" samplePeople := by
    refine List.forall_mem_cons.mpr ⟨⟨.text, ?_⟩, List.forall_mem_singleton.mpr ⟨.number, ?_⟩⟩
    all_goals decide +kernel
  refine ⟨hkind, ?_⟩
  obtain ⟨-, -, -, ⟨sorted, hsome, -, hunique⟩, -⟩ := sortRows_stably hkind
  rw [hsome]
  refine congrArg some (hunique _ ?_).symm
  exact ⟨by decide +kernel, by decide +kernel, by decide +kernel⟩

end Sorted

end DocQuery
