import DocQuery.Proofs.Statement.Signature
import DocQuery.Proofs.Value.Key
import DocQuery.Result.Group

/-!
# What a grouped query shows of a group

The rows of a query fall into groups, every row into just one (`sum_length_groups`). The row
that is computed for a group holds many cells, and one may be written over another: the group
values come first, then the calls of the condition on groups, then the columns, each call under
its signature as well. Where the columns have different output names, each column nevertheless
shows its own value (`Distinct.shows`): a label is a word and so never a signature, and calls
of one signature are one call (`Call.eq_of_signature_eq`).
-/

namespace DocQuery

variable {s : Select} {rows members : List Row} {row : Row}

-- ── Groups ──────────────────────────────────────────────────────────────────

namespace Select

/-- The groups are the classes of rows by the text of their group values. -/
theorem groups_eq_classes (s : Select) (rows : List Row) :
    s.groups rows = Keyed.classes (GroupKey.textOf s.groupBy s.source) rows :=
  Keyed.values_collect _ rows

/-- Every row is in one group. -/
theorem flatten_groups_perm (s : Select) (rows : List Row) :
    (s.groups rows).flatten.Perm rows := by
  rw [groups_eq_classes]
  exact Keyed.flatten_classes_perm _ rows

/-- The members of a group are among the rows. -/
theorem mem_of_mem_groups (h : members ∈ s.groups rows) : ∀ row ∈ members, row ∈ rows := by
  intro row hrow
  exact (s.flatten_groups_perm rows).mem_iff.mp (List.mem_flatten.mpr ⟨members, h, hrow⟩)

/-- The members of a group have one text. -/
theorem textOf_eq_of_mem_groups (h : members ∈ s.groups rows) :
    ∀ a ∈ members, ∀ b ∈ members,
      GroupKey.textOf s.groupBy s.source a = GroupKey.textOf s.groupBy s.source b := by
  rw [groups_eq_classes, Keyed.classes] at h
  obtain ⟨first, -, rfl⟩ := List.mem_map.mp h
  intro a ha b hb
  rw [beq_iff_eq.mp (List.mem_filter.mp ha).2, beq_iff_eq.mp (List.mem_filter.mp hb).2]

end Select

/-- Rows of one group text have one key for every group value. -/
theorem GroupKey.key_resolve_eq {keys : List GroupKey} {t : String} {a b : Row}
    (h : textOf keys t a = textOf keys t b) :
    ∀ k ∈ keys, (a.resolve k.table k.field t).key = (b.resolve k.table k.field t).key := by
  have hlength : (valuesOf keys t a).length = (valuesOf keys t b).length := by
    rw [valuesOf, valuesOf, List.length_map, List.length_map]
  have hkeys := Value.map_key_inj_of_intercalate hlength h
  rw [valuesOf, valuesOf, List.map_map, List.map_map] at hkeys
  exact List.map_inj_left.mp hkeys

-- ── Signatures ──────────────────────────────────────────────────────────────

namespace Call

variable {call call' : Call}

/-- A call that resolves is of a function by its name, over a column or over all rows. -/
theorem resolve_eq_ok {resolved : Function × Source} (h : call.resolve = .ok resolved) :
    Function.ofName? call.name = some resolved.1 ∧
      ((∃ table name, call.arguments = [.column table name] ∧
          resolved.2 = .column table name) ∨
        call.arguments = [.star] ∧ resolved.2 = .allRows) := by
  rw [resolve] at h
  split at h
  · exact nomatch h
  · rename_i f hname
    split at h
    · rename_i table name harguments
      rw [← Except.ok.inj h]
      exact ⟨hname, Or.inl ⟨table, name, harguments, rfl⟩⟩
    · rename_i harguments
      split at h
      · rw [← Except.ok.inj h]
        exact ⟨hname, Or.inr ⟨harguments, rfl⟩⟩
      · exact nomatch h
    · exact nomatch h
    · exact nomatch h

/-- No name of a function has a parenthesis. -/
theorem not_mem_name {f : Function} {name : String} (h : Function.ofName? name = some f) :
    '(' ∉ name.toList := by
  unfold Function.ofName? at h
  split at h
  all_goals first | decide | exact nomatch h

/-- Its one argument is a column or a star. -/
theorem exists_argument {resolved : Function × Source} (h : call.resolve = .ok resolved)
    (hwords : ∀ a ∈ call.arguments, a.InWords) : ∃ a, call.arguments = [a] ∧ a.Named := by
  obtain ⟨-, ⟨table, name, harguments, -⟩ | ⟨harguments, -⟩⟩ := resolve_eq_ok h
  · rw [harguments] at hwords
    have hcolumn : IsWordName table name := hwords _ List.mem_cons_self
    exact ⟨_, harguments, hcolumn.named⟩
  · exact ⟨_, harguments, .star⟩

/-- Calls that resolve, over columns named by words, are told apart by their signatures. -/
theorem eq_of_signature_eq (hresolve : ∃ resolved, call.resolve = .ok resolved)
    (hresolve' : ∃ resolved, call'.resolve = .ok resolved)
    (hwords : ∀ a ∈ call.arguments, a.InWords) (hwords' : ∀ a ∈ call'.arguments, a.InWords)
    (h : call.signature = call'.signature) : call = call' := by
  obtain ⟨resolved, hresolved⟩ := hresolve
  obtain ⟨resolved', hresolved'⟩ := hresolve'
  obtain ⟨a, ha, hnamed⟩ := exists_argument hresolved hwords
  obtain ⟨a', ha', hnamed'⟩ := exists_argument hresolved' hwords'
  have hlist := congrArg String.toList h
  rw [toList_signature, toList_signature, ha, ha'] at hlist
  obtain ⟨hnames, hrest⟩ := append_cons_inj_of_not_mem (not_mem_name (resolve_eq_ok hresolved).1)
    (not_mem_name (resolve_eq_ok hresolved').1) hlist
  obtain ⟨rfl, -⟩ := hnamed.ends hnamed' .paren .paren hrest
  obtain ⟨name, arguments⟩ := call
  obtain ⟨name', arguments'⟩ := call'
  exact congrArg₂ Call.mk (String.toList_injective hnames) (ha.trans ha'.symm)

end Call

-- ── Cells ───────────────────────────────────────────────────────────────────

/-- An item of a list is determined by what is made of it, if that is made only once. -/
theorem eq_of_nodup_filterMap {α β : Type} {f : α → Option β} {items : List α}
    (h : (items.filterMap f).Nodup) {x y : α} (hx : x ∈ items) (hy : y ∈ items) {b : β}
    (hfx : f x = some b) (hfy : f y = some b) : x = y := by
  induction items with
  | nil => exact nomatch hx
  | cons z rest ih =>
      rw [List.filterMap_cons] at h
      rcases List.mem_cons.mp hx with rfl | hx'
      · rcases List.mem_cons.mp hy with rfl | hy'
        · rfl
        · rw [hfx] at h
          exact absurd (List.mem_filterMap.mpr ⟨y, hy', hfy⟩) (List.nodup_cons.mp h).1
      · rcases List.mem_cons.mp hy with rfl | hy'
        · rw [hfy] at h
          exact absurd (List.mem_filterMap.mpr ⟨x, hx', hfx⟩) (List.nodup_cons.mp h).1
        · refine ih ?_ hx' hy'
          split at h
          · exact h
          · exact (List.nodup_cons.mp h).2

/-- A name reads what is written under it, if only one value is. -/
theorem Row.value_ofList_append (before : List (String × Value)) {cells : List (String × Value)}
    {name : String} {v : Value} (hmem : (name, v) ∈ cells) (hone : ∀ w, (name, w) ∈ cells → w = v) :
    Row.value (Keyed.ofList (before ++ cells)) name = v := by
  rw [Row.value, Keyed.get?_ofList_append before hmem hone]
  rfl

namespace Select

/-- The row shows of the group what its columns say: a field the value of the first member, a
    call its value over all members. -/
structure Shows (s : Select) (members : List Row) (row : Row) : Prop where
  fields : ∀ table name label, .field table name label ∈ s.columns →
    row.value (label.getD name) = s.firstValue members table name
  calls : ∀ call label, .call call label ∈ s.columns →
    call.compute s.source members = .ok (row.value (label.getD call.signature))

/-- The columns of the query are named by words, its calls resolve, and no two columns have one
    output name. -/
structure Distinct (s : Select) : Prop where
  inWords : ∀ c ∈ s.columns, c.InWords
  resolves : ∀ call ∈ s.selectedCalls, ∃ resolved, call.resolve = .ok resolved
  nodup : (s.columns.filterMap Column.outputName?).Nodup

/-- A cell under the output name of a column is a cell of that column, or one of a call with that
    signature. -/
theorem Distinct.cell_eq (h : s.Distinct) {c c' : Column} (hc : c ∈ s.columns)
    (hc' : c' ∈ s.columns) {name : String} (hname : c.outputName? = some name)
    {cells : List (String × Value)} (hcells : s.groupCells members c' = .ok cells) {w : Value}
    (hw : (name, w) ∈ cells) : c = c' ∨ ∃ call,
      c = .call call none ∧ call.compute s.source members = .ok w := by
  cases c' with
  | star =>
      rw [← Except.ok.inj hcells] at hw
      exact nomatch hw
  | tableStar table =>
      rw [← Except.ok.inj hcells] at hw
      exact nomatch hw
  | field table field label =>
      rw [← Except.ok.inj hcells] at hw
      obtain ⟨rfl, -⟩ := Prod.mk.inj (List.mem_singleton.mp hw)
      exact Or.inl (eq_of_nodup_filterMap h.nodup hc hc' hname rfl)
  | call call' label =>
      obtain ⟨value, hvalue, hok⟩ := bind_eq_ok_iff.mp hcells
      rw [← Except.ok.inj hok] at hw
      rcases List.mem_append.mp hw with hlabel | hsignature
      · cases label with
        | none => exact nomatch hlabel
        | some a =>
            obtain ⟨rfl, -⟩ := Prod.mk.inj (List.mem_singleton.mp hlabel)
            exact Or.inl (eq_of_nodup_filterMap h.nodup hc hc' hname rfl)
      · -- a name that is a signature is not a word, so it is that of a call without a label
        obtain ⟨rfl, rfl⟩ := Prod.mk.inj (List.mem_singleton.mp hsignature)
        have hwords := h.inWords c hc
        cases c with
        | star => exact nomatch hname
        | tableStar table => exact nomatch hname
        | field table field label =>
            have hword : IsWord (label.getD field) := by
              cases label with
              | none => exact hwords.1.2
              | some a => exact hwords.2 a rfl
            exact absurd (Option.some.inj hname).symm (Call.signature_ne_of_isWord hword call')
        | call call label' =>
            cases label' with
            | some a =>
                exact absurd (Option.some.inj hname).symm
                  (Call.signature_ne_of_isWord (hwords.2 a rfl) call')
            | none =>
                refine Or.inr ⟨call, rfl, ?_⟩
                have hsame : call = call' := Call.eq_of_signature_eq
                  (h.resolves call (List.mem_filterMap.mpr ⟨_, hc, rfl⟩))
                  (h.resolves call' (List.mem_filterMap.mpr ⟨_, hc', rfl⟩))
                  hwords.1 (h.inWords _ hc').1 (Option.some.inj hname)
                rw [hsame]
                exact hvalue

/-- Under the output name of a column the row computed for a group holds the column's value. -/
theorem Distinct.value_groupRow (h : s.Distinct) (hrow : s.groupRow members = .ok row)
    {c : Column} (hc : c ∈ s.columns) {name : String} (hname : c.outputName? = some name)
    {v : Value} (hcell : ∀ cells, s.groupCells members c = .ok cells →
      (name, v) ∈ cells ∧ ∀ w, (name, w) ∈ cells → w = v)
    (hcall : ∀ call, c = .call call none → call.compute s.source members = .ok v) :
    row.value name = v := by
  rw [groupRow] at hrow
  obtain ⟨having, -, hrow⟩ := bind_eq_ok_iff.mp hrow
  obtain ⟨cells, hcells, hrow⟩ := bind_eq_ok_iff.mp hrow
  rw [← Except.ok.inj hrow]
  obtain ⟨hfrom, hof⟩ := mem_mapM hcells
  refine Row.value_ofList_append _ ?_ ?_
  · obtain ⟨l, hl, hok⟩ := hof c hc
    exact List.mem_flatten.mpr ⟨l, hl, (hcell l hok).1⟩
  · intro w hw
    obtain ⟨l, hl, hmem⟩ := List.mem_flatten.mp hw
    obtain ⟨c', hc', hok⟩ := hfrom l hl
    rcases h.cell_eq hc hc' hname hok hmem with rfl | ⟨call, hcol, hcompute⟩
    · exact (hcell l hok).2 w hmem
    · exact Except.ok.inj (hcompute.symm.trans (hcall call hcol))

/-- The row computed for a group shows what the columns say of it. -/
theorem Distinct.shows (h : s.Distinct) (hrow : s.groupRow members = .ok row) :
    s.Shows members row := by
  constructor
  · intro table name label hc
    refine h.value_groupRow hrow hc rfl ?_ fun call hcall => (nomatch hcall)
    intro cells hcells
    rw [← Except.ok.inj hcells]
    refine ⟨List.mem_singleton_self _, ?_⟩
    intro w hw
    exact (Prod.mk.inj (List.mem_singleton.mp hw)).2
  · intro call label hc
    have hcells : ∃ cells, s.groupCells members (.call call label) = .ok cells := by
      rw [groupRow] at hrow
      obtain ⟨_, -, hrow⟩ := bind_eq_ok_iff.mp hrow
      obtain ⟨cells, hcells, -⟩ := bind_eq_ok_iff.mp hrow
      obtain ⟨l, -, hok⟩ := (mem_mapM hcells).2 _ hc
      exact ⟨l, hok⟩
    obtain ⟨cells, hcells⟩ := hcells
    obtain ⟨v, hv, -⟩ := bind_eq_ok_iff.mp hcells
    rw [hv]
    refine congrArg Except.ok (h.value_groupRow hrow hc rfl ?_ ?_).symm
    · intro cells hcells
      obtain ⟨v', hv', hok⟩ := bind_eq_ok_iff.mp hcells
      rw [← Except.ok.inj hok, ← Except.ok.inj (hv.symm.trans hv')]
      cases label with
      | none => simp
      | some a => simp
    · rintro call' ⟨⟩
      exact hv

/-- A selected output is shown with the value that was computed. -/
theorem value_projectGroupRow {name : String} (row : Row)
    (hname : name ∈ s.columns.filterMap Column.outputName?) :
    (projectGroupRow s.columns row).value name = row.value name := by
  have hcells : ∀ w, (name, w) ∈ ((s.columns.filterMap Column.outputName?).map fun n =>
      (n, row.value n)) → w = row.value name := by
    intro w hw
    obtain ⟨n, -, heq⟩ := List.mem_map.mp hw
    obtain ⟨rfl, rfl⟩ := Prod.mk.inj heq
    rfl
  exact Row.value_ofList_append [] (List.mem_map.mpr ⟨name, hname, rfl⟩) hcells

/-- Projection keeps what is shown. -/
theorem Shows.project (h : s.Shows members row) :
    s.Shows members (projectGroupRow s.columns row) := by
  constructor
  · intro table name label hc
    rw [value_projectGroupRow row (List.mem_filterMap.mpr ⟨_, hc, rfl⟩)]
    exact h.fields table name label hc
  · intro call label hc
    rw [value_projectGroupRow row (List.mem_filterMap.mpr ⟨_, hc, rfl⟩)]
    exact h.calls call label hc

end Select

end DocQuery
