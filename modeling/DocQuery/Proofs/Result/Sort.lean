import DocQuery.Proofs.Sorting.Stable
import DocQuery.Proofs.Store.Reachable
import DocQuery.Result.Sort
import DocQuery.Store.Scan

/-!
# The store's order and the engine's order

The store sorts by the fields of an index and turns the comparison around for a descending
scan; the engine sorts by `ORDER BY` keys and exchanges the operands. On rows of plain names
both compare the same values. Where a column has one kind both sorts are that of the library, and
so they are one; where it mixes types they may differ or panic. Main statements:

* `sortRows_eq_mergeSort` — sorting by one key is sorting by an index on its field;
* `sortRows_creationTime_ascending`, `sortRows_creationTime_descending` — rows in order of
  creation need no sort, or only turning around;
* `equal_of_sortedOn` — however ties are broken, the sorted values are the same.
-/

namespace DocQuery

-- ── A direction ─────────────────────────────────────────────────────────────

namespace Value

/-- The order of two values in a direction. -/
def collateIn (direction : Direction) (v w : Value) : Ordering :=
  match direction with
  | .ascending => collate v w
  | .descending => collate w v

variable {direction : Direction} {kind : Kind} {u v w : Value}

/-- In a column of one kind the order is transitive in either direction. -/
theorem collateIn_isLE_trans (hu : u.Fits kind) (hv : v.Fits kind) (hw : w.Fits kind)
    (huv : (collateIn direction u v).isLE = true)
    (hvw : (collateIn direction v w).isLE = true) : (collateIn direction u w).isLE = true := by
  cases direction with
  | ascending => exact collate_isLE_trans hu hv hw huv hvw
  | descending => exact collate_isLE_trans hw hv hu hvw huv

/-- Values of which neither comes after the other are tied. -/
theorem collate_eq_of_isLE (h : (collateIn direction v w).isLE = true)
    (h' : (collateIn direction w v).isLE = true) : collate v w = .eq := by
  cases direction with
  | ascending =>
      rw [collateIn, collate_swap] at h'
      revert h h'
      rw [collateIn]
      cases collate v w <;> decide
  | descending =>
      rw [collateIn, collate_swap] at h
      revert h h'
      rw [collateIn]
      cases collate v w <;> decide

/-- In a column of one kind the values that are tied in either direction are the equal ones. -/
theorem collateIn_eq_iff (hv : v.Fits kind) (hw : w.Fits kind) :
    collateIn direction v w = .eq ↔ v.equal w = true := by
  cases direction with
  | ascending => exact collate_eq_iff hv hw
  | descending =>
      rw [equal_comm]
      exact collate_eq_iff hw hv

/-- A value is in its own place. -/
theorem collateIn_self (hv : v.Fits kind) : (collateIn direction v v).isLE = true := by
  have hself : collate v v = .eq := by
    refine (collate_eq_iff hv hv).mpr (equal_refl ?_)
    rintro x rfl
    exact hv.2
  cases direction <;> rw [collateIn, hself] <;> rfl

/-- In a column of one kind two values that neither comes after the other are equal. -/
theorem equal_of_isLE (direction : Direction) (hv : v.Fits kind) (hw : w.Fits kind)
    (hle : (collateIn direction v w).isLE = true) (hge : (collateIn direction w v).isLE = true) :
    v.equal w = true :=
  (collate_eq_iff hv hw).mp (collate_eq_of_isLE hle hge)

/-- However ties are broken, sorted values of one kind are the same. -/
theorem forall₂_equal_of_perm {values values' : List Value} (hperm : values.Perm values')
    (hfits : ∀ v ∈ values, v.Fits kind)
    (h : values.Pairwise fun v w => (collateIn direction v w).isLE = true)
    (h' : values'.Pairwise fun v w => (collateIn direction v w).isLE = true) :
    values.Forall₂ (fun v w => v.equal w = true) values' := by
  have hties := forall₂_of_perm_of_pairwise hperm h h' (fun v hv => collateIn_self (hfits v hv))
    (fun u hu v hv w hw => collateIn_isLE_trans (hfits u hu) (hfits v hv) (hfits w hw))
  obtain ⟨hlength, hget⟩ := List.forall₂_iff_get.mp hties
  refine List.forall₂_iff_get.mpr ⟨hlength, ?_⟩
  intro i hi hi'
  obtain ⟨hle, hge⟩ := hget i hi hi'
  exact equal_of_isLE direction (hfits _ (List.get_mem _ _))
    (hfits _ (hperm.mem_iff.mpr (List.get_mem _ _))) hle hge

end Value

-- ── Rows sorted on a field ──────────────────────────────────────────────────

/-- No row's value of the field comes before that of an earlier row. -/
def SortedOn (field : String) (direction : Direction) (rows : List Row) : Prop :=
  rows.Pairwise fun a b => (Value.collateIn direction (a.value field) (b.value field)).isLE = true

/-- The values of the field are nulls and values of one kind. -/
def HasKind (field : String) (rows : List Row) : Prop :=
  ∃ kind : Value.Kind, ∀ row ∈ rows, (row.value field).Fits kind

/-- The values of the field are nulls and values of one type. -/
def HasOneType (field : String) (rows : List Row) : Prop :=
  ∃ type, ∀ row ∈ rows, row.value field = .null ∨ (row.value field).typeName = type

variable {field table : String} {direction : Direction} {key : OrderKey} {rows rows' : List Row}

/-- Values of one type that keys tell apart are of one kind, as none of them is NaN. -/
theorem HasOneType.hasKind (h : HasOneType field rows) (hkeys : ∀ row ∈ rows, row.Keyable) :
    HasKind field rows := by
  obtain ⟨type, htype⟩ := h
  refine ⟨if type = "boolean" then .boolean else if type = "number" then .number else .text, ?_⟩
  intro row hrow
  have hnan := ((hkeys row hrow).value field).isNaN
  rcases htype row hrow with hnull | rfl
  · rw [hnull]
    trivial
  · cases hv : row.value field with
    | null => trivial
    | boolean b => exact if_pos rfl
    | number x => exact ⟨rfl, hnan x hv⟩
    | text s => rfl

/-- Fewer rows keep a column of one kind. -/
theorem HasKind.subset (h : HasKind field rows) (hsub : rows' ⊆ rows) : HasKind field rows' := by
  obtain ⟨kind, hfits⟩ := h
  exact ⟨kind, fun row hrow => hfits row (hsub hrow)⟩

theorem SortedOn.reverse (h : SortedOn field .ascending rows) :
    SortedOn field .descending rows.reverse :=
  List.pairwise_reverse.mpr h

/-- However ties are broken, the sorted values are the same. -/
theorem equal_of_sortedOn (hperm : rows.Perm rows') (hkind : HasKind field rows)
    (h : SortedOn field direction rows) (h' : SortedOn field direction rows') :
    (rows.map (·.value field)).Forall₂ (fun v w => v.equal w = true)
      (rows'.map (·.value field)) := by
  obtain ⟨kind, hfits⟩ := hkind
  exact Value.forall₂_equal_of_perm (hperm.map _) (List.forall_mem_map.mpr hfits)
    (List.pairwise_map.mpr h) (List.pairwise_map.mpr h')

-- ── Sorting by the fields of an index ───────────────────────────────────────

namespace Scan

/-- With one field rows compare by it. -/
theorem compareRows_singleton (field : String) (direction : Direction) (a b : Row) :
    compareRows [field] direction a b
      = Value.collateIn direction (a.value field) (b.value field) := by
  have hthen : ∀ o : Ordering, o.then .eq = o := by decide
  cases direction with
  | ascending => exact hthen _
  | descending =>
      show ((Value.collate _ _).then .eq).swap = Value.collate _ _
      rw [hthen, Value.collate_swap, Ordering.swap_swap]

/-- Rows that are in order by an index are in order by its first field. -/
theorem collateIn_isLE_of_compareRows {fields : List String} {a b : Row}
    (h : (compareRows (field :: fields) direction a b).isLE = true) :
    (Value.collateIn direction (a.value field) (b.value field)).isLE = true := by
  have hthen : ∀ o later : Ordering, (o.then later).isLE = true → o.isLE = true := by decide
  cases direction with
  | ascending => exact hthen _ _ h
  | descending =>
      have hswap : ∀ o later : Ordering, (o.then later).swap.isLE = true → o.swap.isLE = true := by
        decide
      rw [Value.collateIn, Value.collate_swap]
      exact hswap _ _ h

/-- On rows whose columns have a kind each, the order of an index is a total preorder. The
    induction is on its fields. -/
theorem transCmp_compareKeys {fields : List String} (hkind : ∀ f ∈ fields, HasKind f rows) :
    Std.TransCmp fun a b : { row // row ∈ rows } => compareKeys fields a.1 b.1 := by
  induction fields with
  | nil => exact { eq_swap := rfl, isLE_trans := fun _ _ => rfl }
  | cons f fields ih =>
      have hlater := ih fun g hg => hkind g (List.mem_cons_of_mem _ hg)
      obtain ⟨kind, hfits⟩ := hkind f List.mem_cons_self
      have hfirst : Std.TransCmp fun a b : { row // row ∈ rows } =>
          Value.collate (a.1.value f) (b.1.value f) :=
        { eq_swap := Value.collate_swap _ _
          isLE_trans := fun {a b c} =>
            Value.collate_isLE_trans (hfits a.1 a.2) (hfits b.1 b.2) (hfits c.1 c.2) }
      exact inferInstanceAs (Std.TransCmp (compareLex
        (fun a b : { row // row ∈ rows } => Value.collate (a.1.value f) (b.1.value f))
        fun a b : { row // row ∈ rows } => compareKeys fields a.1 b.1))

/-- Rows compare transitively if each of the columns is of one kind. -/
theorem transCmp_compareRows {fields : List String} (hkind : ∀ f ∈ fields, HasKind f rows)
    (direction : Direction) :
    Std.TransCmp fun a b : { row // row ∈ rows } => compareRows fields direction a.1 b.1 := by
  have hkeys := transCmp_compareKeys hkind
  cases direction with
  | ascending => exact hkeys
  | descending =>
      have hswap : (fun a b : { row // row ∈ rows } => compareRows fields .descending a.1 b.1)
          = fun a b => compareKeys fields b.1 a.1 := by
        funext a b
        exact (hkeys.eq_swap (a := b) (b := a)).symm
      rw [hswap]
      exact @Std.TransCmp.opposite _ _ hkeys

/-- Rows sorted by an index are sorted on its first field. -/
theorem sortedOn_mergeSort {fields : List String} (hkind : ∀ f ∈ field :: fields, HasKind f rows)
    (direction : Direction) :
    SortedOn field direction
      (rows.mergeSort fun a b => compareRows (field :: fields) direction a b != .gt) := by
  have hcmp := transCmp_compareRows hkind direction
  exact (pairwise_mergeSort_of_transCmp hcmp).imp fun h => collateIn_isLE_of_compareRows h

end Scan

-- ── Rows that an index can sort ─────────────────────────────────────────────

/-- There are few rows, or none of the fields mixes types. -/
def SortableBy (fields : List String) (rows : List Row) : Prop :=
  rows.length ≤ 20 ∨ ∀ f ∈ fields, HasKind f rows

/-- What can be sorted still can with rows left out. -/
theorem SortableBy.filter {fields : List String} (h : SortableBy fields rows) (p : Row → Bool) :
    SortableBy fields (rows.filter p) :=
  h.imp (fun hlength => (List.length_filter_le _ _).trans hlength)
    fun hkind f hf => (hkind f hf).subset (List.filter_subset_self _)

theorem SortableBy.perm {fields : List String} (h : SortableBy fields rows)
    (hperm : rows.Perm rows') : SortableBy fields rows' :=
  h.imp hperm.length_eq.ge.trans fun hkind f hf => (hkind f hf).subset hperm.symm.subset

/-- By an index such rows can be sorted. -/
theorem SortableBy.isSome_stableSort {fields : List String} (h : SortableBy fields rows)
    (direction : Direction) :
    (Sorting.stableSort Scan.referenceBytes (Scan.compareRows fields direction) rows).isSome
      = true := by
  rcases h with hlength | hkind
  · exact Sorting.isSome_stableSort_of_length_le hlength
  · rw [Sorting.stableSort_eq_some (Scan.transCmp_compareRows hkind direction)]
    rfl

-- ── Sorting by one key ──────────────────────────────────────────────────────

/-- A sort, if it does not panic, gives the rows rearranged. -/
theorem sortRows_perm {keys : List OrderKey} {sorted : List Row}
    (h : sortRows keys table rows = some sorted) : sorted.Perm rows := by
  rw [sortRows] at h
  split at h
  · exact .of_eq (Option.some.inj h).symm
  · exact Sorting.stableSort_perm h

/-- By keys that do not contradict themselves on the rows, the sort is that of the library. -/
theorem sortRows_eq_some {keys : List OrderKey} (hcmp : Std.TransCmp
      fun a b : { row // row ∈ rows } => OrderKey.compareAll table keys a.1 b.1) :
    sortRows keys table rows
      = some (rows.mergeSort fun a b => OrderKey.compareAll table keys a b != .gt) := by
  cases keys with
  | nil =>
      refine congrArg some (List.mergeSort_of_pairwise (List.pairwise_of_forall ?_)).symm
      exact fun _ _ => rfl
  | cons key keys => exact Sorting.stableSort_eq_some hcmp

/-- No sort of up to twenty rows panics. -/
theorem isSome_sortRows_of_length_le (keys : List OrderKey) (table : String)
    (h : rows.length ≤ 20) : (sortRows keys table rows).isSome = true := by
  rw [sortRows]
  split
  · rfl
  · exact Sorting.isSome_stableSort_of_length_le h

/-- On rows of plain names a key compares the values of its field. -/
theorem OrderKey.compareAll_singleton {a b : Row} (ha : a.HasPlainNames) (hb : b.HasPlainNames) :
    compareAll table [key] a b
      = Value.collateIn key.direction (a.value key.field) (b.value key.field) := by
  have hthen : ∀ o : Ordering, o.then .eq = o := by decide
  show (key.compareRows table a b).then .eq = _
  rw [hthen, compareRows, ha.resolve_eq, hb.resolve_eq]
  cases key.direction <;> rfl

/-- Sorting by one key is sorting by an index on its field, where the column has one kind. -/
theorem sortRows_eq_mergeSort (h : ∀ row ∈ rows, row.HasPlainNames)
    (hkind : HasKind key.field rows) : sortRows [key] table rows
      = some (rows.mergeSort fun a b => Scan.compareRows [key.field] key.direction a b != .gt) := by
  have hsame : ∀ a ∈ rows, ∀ b ∈ rows, OrderKey.compareAll table [key] a b
      = Scan.compareRows [key.field] key.direction a b := by
    intro a ha b hb
    rw [OrderKey.compareAll_singleton (h a ha) (h b hb), Scan.compareRows_singleton]
  have hcmp := Scan.transCmp_compareRows (List.forall_mem_singleton.mpr hkind) key.direction
  rw [sortRows_eq_some]
  · refine congrArg some (mergeSort_congr_of_mem fun a ha b hb => ?_)
    rw [hsame a ha b hb]
  · have heq : (fun a b : { row // row ∈ rows } => OrderKey.compareAll table [key] a.1 b.1)
        = fun a b => Scan.compareRows [key.field] key.direction a.1 b.1 :=
      funext fun a => funext fun b => hsame a.1 a.2 b.1 b.2
    rw [heq]
    exact hcmp

/-- Where an index can sort the rows, the sort of the store by it is the sort by a key. -/
theorem sortRows_eq_stableSort (h : ∀ row ∈ rows, row.HasPlainNames)
    (hsortable : SortableBy [key.field] rows) :
    sortRows [key] table rows = Sorting.stableSort Scan.referenceBytes
      (Scan.compareRows [key.field] key.direction) rows := by
  rcases hsortable with hlength | hkind
  · refine Sorting.stableSort_congr_of_length_le hlength fun a ha b hb => ?_
    rw [OrderKey.compareAll_singleton (h a ha) (h b hb), Scan.compareRows_singleton]
  · rw [sortRows_eq_mergeSort h (hkind _ List.mem_cons_self),
      Sorting.stableSort_eq_some (Scan.transCmp_compareRows hkind key.direction)]

/-- Rows sorted by one key are sorted on its field. -/
theorem sortedOn_sortRows {sorted : List Row} (h : ∀ row ∈ rows, row.HasPlainNames)
    (hkind : HasKind key.field rows) (hsort : sortRows [key] table rows = some sorted) :
    SortedOn key.field key.direction sorted := by
  rw [sortRows_eq_mergeSort h hkind] at hsort
  rw [← Option.some.inj hsort]
  exact Scan.sortedOn_mergeSort (List.forall_mem_singleton.mpr hkind) _

-- ── Creation times ──────────────────────────────────────────────────────────

theorem Number.rank_ofMagnitude (m : Nat) :
    (ofMagnitude false m).rank = (ofMagnitude false m).magnitude :=
  rfl

/-- Natural numbers compare as the magnitudes that they are rounded to. -/
theorem Value.collate_ofNat (m n : Nat) :
    Value.collate (.number (.ofNat m)) (.number (.ofNat n))
      = compare ((Number.ofNat m).magnitude : Int) (Number.ofNat n).magnitude := by
  have hnan : ∀ k, (Number.ofNat k).isNaN = false := fun k => Number.isNaN_ofMagnitude _ _
  have hrank : ∀ k, (Number.ofNat k).rank = (Number.ofNat k).magnitude := by
    intro k
    rw [Number.ofNat, Number.ofUnits]
    exact Number.rank_ofMagnitude _
  show ((Number.ofNat m).compare? (Number.ofNat n)).getD .eq = _
  rw [Number.compare?_of_not_isNaN (hnan m) (hnan n), hrank m, hrank n]
  exact Option.getD_some

namespace Store.Ticks

variable {clock : Nat} {ticks : List Nat}

/-- What holds of the times of any two ticks in order holds of any two rows in order. -/
theorem pairwise {R : Value → Value → Prop} (h : Ticks rows clock ticks)
    (hR : ∀ m n, m < n → n ≤ clock → R (.number (.ofNat m)) (.number (.ofNat n))) :
    rows.Pairwise fun a b => R (a.value creationTimeField) (b.value creationTimeField) := by
  refine List.pairwise_map.mp ?_
  rw [h.times]
  refine List.pairwise_map.mpr ?_
  refine h.sorted.imp_of_mem ?_
  intro m n _ hn hlt
  exact hR m n hlt (h.le n hn)

/-- Creation times do not decrease. -/
theorem sortedOn (h : Ticks rows clock ticks) : SortedOn creationTimeField .ascending rows := by
  refine h.pairwise (R := fun v w => (Value.collate v w).isLE = true) ?_
  intro m n hlt _
  rw [Value.collate_ofNat, Int.isLE_compare]
  exact Int.ofNat_le.mpr (Number.ofNat_le_ofNat hlt.le)

/-- Creation times below `2 ^ 53` increase. -/
theorem pairwise_lt (h : Ticks rows clock ticks) (hclock : clock < 2 ^ 53) :
    rows.Pairwise fun a b =>
      Value.collate (a.value creationTimeField) (b.value creationTimeField) = .lt := by
  refine h.pairwise (R := fun v w => Value.collate v w = .lt) ?_
  intro m n hlt hn
  rw [Value.collate_ofNat, Int.compare_eq_lt]
  exact Int.ofNat_lt.mpr (Number.ofNat_lt_ofNat hlt (hn.trans_lt hclock))

/-- The times of rows are numbers. -/
theorem hasKind (h : Ticks rows clock ticks) : HasKind creationTimeField rows := by
  refine ⟨.number, ?_⟩
  intro row hrow
  have hmem := List.mem_map_of_mem (f := (·.value creationTimeField)) hrow
  rw [h.times] at hmem
  obtain ⟨n, -, hn⟩ := List.mem_map.mp hmem
  rw [← hn]
  exact ⟨rfl, Number.isNaN_ofMagnitude _ _⟩

end Store.Ticks

/-- Rows in order of creation, ascending, need no sort by creation time. -/
theorem sortRows_creationTime_ascending (hplain : ∀ row ∈ rows, row.HasPlainNames)
    (hkind : HasKind creationTimeField rows)
    (hfield : key.field = creationTimeField) (hdirection : key.direction = .ascending)
    (h : SortedOn creationTimeField .ascending rows) : sortRows [key] table rows = some rows := by
  rw [sortRows_eq_mergeSort hplain (hfield ▸ hkind)]
  refine congrArg some (List.mergeSort_of_pairwise (h.imp fun hle => ?_))
  rw [Scan.compareRows_singleton, hfield, hdirection, bne_gt_eq_isLE]
  exact hle

/-- Rows of increasing creation times are sorted descending by turning them around. -/
theorem sortRows_creationTime_descending (hplain : ∀ row ∈ rows, row.HasPlainNames)
    (hkind : HasKind creationTimeField rows)
    (hfield : key.field = creationTimeField) (hdirection : key.direction = .descending)
    (h : rows.Pairwise fun a b =>
      Value.collate (a.value creationTimeField) (b.value creationTimeField) = .lt) :
    sortRows [key] table rows = some rows.reverse := by
  obtain ⟨sorted, hsort⟩ : ∃ sorted, sortRows [key] table rows = some sorted :=
    ⟨_, sortRows_eq_mergeSort hplain (hfield ▸ hkind)⟩
  have hsorted : SortedOn creationTimeField .descending sorted := by
    rw [← hfield, ← hdirection]
    exact sortedOn_sortRows hplain (hfield ▸ hkind) hsort
  have hreverse : SortedOn creationTimeField .descending rows.reverse :=
    SortedOn.reverse (h.imp fun hlt => Ordering.isLE_of_eq_lt hlt)
  have hperm := (sortRows_perm hsort).trans rows.reverse_perm.symm
  rw [hsort]
  refine congrArg some (List.Perm.eq_of_pairwise ?_ hsorted hreverse hperm)
  -- two rows that are tied are one row, as the values increase
  have htied : ∀ a ∈ rows, ∀ b ∈ rows,
      Value.collate (a.value creationTimeField) (b.value creationTimeField) = .eq → a = b := by
    refine List.Pairwise.forall_of_forall_of_flip (fun _ _ _ => rfl) (h.imp ?_) (h.imp ?_)
    · intro a b hlt heq
      rw [hlt] at heq
      exact nomatch heq
    · intro a b hlt heq
      rw [Value.collate_swap, hlt] at heq
      exact nomatch heq
  intro a b ha hb hle hge
  exact htied a ((sortRows_perm hsort).mem_iff.mp ha) b (List.mem_reverse.mp hb)
    (Value.collate_eq_of_isLE hle hge)

end DocQuery
