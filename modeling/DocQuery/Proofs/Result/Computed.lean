import DocQuery.Proofs.Filter
import DocQuery.Proofs.Result.Group

/-!
# What the row computed for a group holds

The row computed for a group is written cell after cell, a later cell over an earlier one of the
same name: the group values under the names of their fields, then each call under its signature and
each column under its output name (`exists_cells`). Where the query is `WellNamed`, no word is a
signature and calls of one signature are one call, so nothing is ever written over a call by
another: under its signature the row holds its value (`get?_signature`). A name that no column has
holds the value of the last group key of that name (`get?_key`); the tables of the keys are gone.
-/

namespace DocQuery

namespace Select

variable {s : Select} {members : List Row} {row : Row}

-- ── Cells ───────────────────────────────────────────────────────────────────

/-- The cells of the group values. -/
def keyCells (s : Select) (members : List Row) : List (String × Value) :=
  s.groupBy.map fun k => (k.field, s.firstValue members k.table k.field)

/-- What is written after the group values: a call under its signature, and a column under an
    output name that is not a signature. -/
inductive Writes (s : Select) (members : List Row) : String → Value → Prop where
  | call {call : Call} {v : Value} (mem : call ∈ s.selectedCalls ++ s.havingCalls)
      (compute : call.compute s.source members = .ok v) : s.Writes members call.signature v
  | column {c : Column} {name : String} (v : Value) (mem : c ∈ s.columns)
      (output : c.outputName? = some name) (named : ∀ call, c ≠ .call call none) :
      s.Writes members name v

/-- The cells of a column are among what is written. -/
theorem writes_of_mem_groupCells {c : Column} (hc : c ∈ s.columns)
    {cells : List (String × Value)} (hcells : s.groupCells members c = .ok cells) {name : String}
    {v : Value} (hmem : (name, v) ∈ cells) : s.Writes members name v := by
  cases c with
  | star =>
      rw [← Except.ok.inj hcells] at hmem
      exact nomatch hmem
  | tableStar table =>
      rw [← Except.ok.inj hcells] at hmem
      exact nomatch hmem
  | field table field label =>
      rw [← Except.ok.inj hcells] at hmem
      obtain ⟨rfl, -⟩ := Prod.mk.inj (List.mem_singleton.mp hmem)
      exact .column v hc rfl fun _ h => nomatch h
  | call call label =>
      obtain ⟨value, hvalue, hok⟩ := bind_eq_ok_iff.mp hcells
      rw [← Except.ok.inj hok] at hmem
      rcases List.mem_append.mp hmem with hlabel | hsignature
      · cases label with
        | none => exact nomatch hlabel
        | some a =>
            obtain ⟨rfl, -⟩ := Prod.mk.inj (List.mem_singleton.mp hlabel)
            exact .column v hc rfl fun _ h => nomatch h
      · obtain ⟨rfl, rfl⟩ := Prod.mk.inj (List.mem_singleton.mp hsignature)
        exact .call (List.mem_append_left _ (List.mem_filterMap.mpr ⟨_, hc, rfl⟩)) hvalue

/-- The row is written from the group values and then the cells of calls and columns; the value of
    every call is among these. -/
theorem exists_cells (hrow : s.groupRow members = .ok row) :
    ∃ cells, row = Keyed.ofList (s.keyCells members ++ cells) ∧
      (∀ name v, (name, v) ∈ cells → s.Writes members name v) ∧
      ∀ call ∈ s.selectedCalls ++ s.havingCalls, ∃ v,
        call.compute s.source members = .ok v ∧ (call.signature, v) ∈ cells := by
  obtain ⟨having, hhaving, hrow⟩ := bind_eq_ok_iff.mp hrow
  obtain ⟨shown, hshown, hrow⟩ := bind_eq_ok_iff.mp hrow
  obtain ⟨hfromHaving, hofHaving⟩ := mem_mapM hhaving
  obtain ⟨hfromShown, hofShown⟩ := mem_mapM hshown
  refine ⟨having ++ shown.flatten, ?_, ?_, ?_⟩
  · rw [← List.append_assoc]
    exact (Except.ok.inj hrow).symm
  · intro name v hmem
    rcases List.mem_append.mp hmem with hmem | hmem
    · obtain ⟨call, hcall, hok⟩ := hfromHaving _ hmem
      obtain ⟨value, hvalue, hok⟩ := bind_eq_ok_iff.mp hok
      obtain ⟨rfl, rfl⟩ := Prod.mk.inj (Except.ok.inj hok)
      exact .call (List.mem_append_right _ hcall) hvalue
    · obtain ⟨cells, hcells, hmem⟩ := List.mem_flatten.mp hmem
      obtain ⟨c, hc, hok⟩ := hfromShown cells hcells
      exact writes_of_mem_groupCells hc hok hmem
  · intro call hcall
    rcases List.mem_append.mp hcall with hcall | hcall
    · obtain ⟨c, hc, hcall⟩ := List.mem_filterMap.mp hcall
      obtain ⟨cells, hcells, hok⟩ := hofShown c hc
      cases c with
      | call call' label =>
          obtain rfl := Option.some.inj hcall
          obtain ⟨value, hvalue, hok⟩ := bind_eq_ok_iff.mp hok
          rw [← Except.ok.inj hok] at hcells
          refine ⟨value, hvalue, List.mem_append_right _ (List.mem_flatten.mpr ⟨_, hcells, ?_⟩)⟩
          exact List.mem_append_right _ (List.mem_singleton_self _)
      | star | tableStar _ | field _ _ _ => exact nomatch hcall
    · obtain ⟨cell, hcell, hok⟩ := hofHaving call hcall
      obtain ⟨value, hvalue, hok⟩ := bind_eq_ok_iff.mp hok
      rw [← Except.ok.inj hok] at hcell
      exact ⟨value, hvalue, List.mem_append_left _ hcell⟩

-- ── Well named queries ──────────────────────────────────────────────────────

/-- An output name that is not a signature is a word. -/
theorem InWords.isWord (h : s.InWords) {c : Column} {name : String} (hc : c ∈ s.columns)
    (houtput : c.outputName? = some name) (hnamed : ∀ call, c ≠ .call call none) :
    IsWord name := by
  have hwords := h.columns c hc
  cases c with
  | star | tableStar _ => exact nomatch houtput
  | field table field label =>
      rw [← Option.some.inj houtput]
      cases label with
      | none => exact hwords.1.2
      | some a => exact hwords.2 a rfl
  | call call label =>
      rw [← Option.some.inj houtput]
      cases label with
      | none => exact absurd rfl (hnamed call)
      | some a => exact hwords.2 a rfl

/-- The columns and the group keys of the query are named by words, and so are the arguments of its
    calls; its tables are named without a point. -/
structure WellNamed (s : Select) : Prop extends s.InWords where
  tables : ∀ t ∈ s.tables, Plain t
  arguments : ∀ call ∈ s.selectedCalls ++ s.havingCalls, ∀ a ∈ call.arguments, a.InWords

/-- What a subject stands for in a group: a call its value over all members, null if it has none,
    and a column the value of the first member. -/
def valueOver (s : Select) (members : List Row) : Subject → Value
  | .column table field => s.firstValue members table field
  | .call call => (call.compute s.source members).toOption.getD .null

namespace WellNamed

section Calls

variable (h : s.WellNamed)
  (hresolves : ∀ call ∈ s.selectedCalls ++ s.havingCalls, ∃ resolved, call.resolve = .ok resolved)
  {call : Call} (hcall : call ∈ s.selectedCalls ++ s.havingCalls)

include h hresolves hcall

/-- Under a signature only the value of its call is written. -/
theorem compute_of_writes {v : Value} (hwrites : s.Writes members call.signature v) :
    call.compute s.source members = .ok v := by
  generalize hname : call.signature = name at hwrites
  cases hwrites with
  | @call call' v hcall' hcompute =>
      obtain rfl := Call.eq_of_signature_eq (hresolves _ hcall) (hresolves _ hcall')
        (h.arguments _ hcall) (h.arguments _ hcall') hname
      exact hcompute
  | column v hc houtput hnamed =>
      exact absurd hname (Call.signature_ne_of_isWord (h.isWord hc houtput hnamed) call)

/-- The row computed for a group holds the value of every call under its signature. -/
theorem get?_signature (hrow : s.groupRow members = .ok row) :
    ∃ v, call.compute s.source members = .ok v ∧ row.get? call.signature = some v := by
  obtain ⟨cells, rfl, hwrites, hcalls⟩ := exists_cells hrow
  obtain ⟨v, hv, hmem⟩ := hcalls call hcall
  refine ⟨v, hv, Keyed.get?_ofList_append _ hmem ?_⟩
  intro w hw
  exact Except.ok.inj ((h.compute_of_writes hresolves hcall (hwrites _ _ hw)).symm.trans hv)

/-- A comparison of a call reads, in the row computed for a group, the value of the call. -/
theorem resolve_call (hrow : s.groupRow members = .ok row) :
    row.resolve none call.signature s.source = s.valueOver members (.call call) := by
  obtain ⟨v, hv, hget⟩ := h.get?_signature hresolves hcall hrow
  rw [valueOver, hv, Row.resolve, Row.resolve?, hget]
  rfl

end Calls

end WellNamed

-- ── Group values ────────────────────────────────────────────────────────────

/-- The last of the group keys of a name. -/
def lastKey? (s : Select) (name : String) : Option GroupKey :=
  s.groupBy.reverse.find? fun k => k.field == name

/-- The key that is written last is one of the keys. -/
theorem mem_of_lastKey? {name : String} {k : GroupKey} (h : s.lastKey? name = some k) :
    k ∈ s.groupBy ∧ k.field = name := by
  have hfield : (k.field == name) = true :=
    List.find?_some (p := fun k : GroupKey => k.field == name) h
  exact ⟨List.mem_reverse.mp (List.mem_of_find?_eq_some h), beq_iff_eq.mp hfield⟩

/-- Under a word that is no output name the row holds the value of the last group key of that
    name. -/
theorem get?_key (hrow : s.groupRow members = .ok row) {name : String} (hname : IsWord name)
    (hnot : name ∉ s.columns.filterMap Column.outputName?) :
    row.get? name = (s.lastKey? name).map fun k => s.firstValue members k.table k.field := by
  obtain ⟨cells, rfl, hwrites, -⟩ := exists_cells hrow
  rw [Keyed.get?_ofList_append_of_not_mem]
  · exact Keyed.get?_ofList_map GroupKey.field _ s.groupBy name
  · intro v hmem
    have hcell := hwrites name v hmem
    cases hcell with
    | call => exact Call.signature_ne_of_isWord hname _ rfl
    | column v hc houtput => exact hnot (List.mem_filterMap.mpr ⟨_, hc, houtput⟩)

/-- It holds nothing under a qualified name. -/
theorem InWords.get?_qualify (h : s.InWords) (hrow : s.groupRow members = .ok row) (table : String)
    {field : String} (hfield : IsWord field) : row.get? (qualify table field) = none := by
  obtain ⟨cells, rfl, hwrites, -⟩ := exists_cells hrow
  rw [Keyed.get?_ofList_append_of_not_mem]
  · rw [keyCells, Keyed.get?_ofList_map GroupKey.field, Option.map_eq_none_iff, List.find?_eq_none]
    intro k hk hname
    exact qualify_ne_of_plain (h.groupBy k (List.mem_reverse.mp hk)).2.plain (beq_iff_eq.mp hname)
  · intro v hmem
    generalize hname : qualify table field = name at hmem
    cases hwrites name v hmem with
    | @call call v hcall hcompute => exact Call.signature_ne_qualify hfield call hname.symm
    | column v hc houtput hnamed =>
        exact qualify_ne_of_plain (h.isWord hc houtput hnamed).plain hname.symm

/-- So with any table or none the name of a group key reads the last group key of that name. -/
theorem InWords.resolve_key (h : s.InWords) (hrow : s.groupRow members = .ok row) {k : GroupKey}
    (hk : s.lastKey? k.field = some k) (hnot : k.field ∉ s.columns.filterMap Column.outputName?)
    (table : Option String) :
    row.resolve table k.field s.source = s.firstValue members k.table k.field := by
  have hfield := (h.groupBy k (mem_of_lastKey? hk).1).2
  have hbare := get?_key hrow hfield hnot
  rw [hk] at hbare
  cases table with
  | none => rw [Row.resolve, Row.resolve?, hbare]; rfl
  | some t => rw [Row.resolve, Row.resolve?, h.get?_qualify hrow t hfield, hbare]; rfl

end Select

end DocQuery
