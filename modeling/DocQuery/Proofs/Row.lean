import DocQuery.Row
import DocQuery.Proofs.Keyed

/-!
# Rows under qualified names

A name without a point is `Plain`. Two plain tables never qualify to one name, so the fields
of joined rows keep apart: `get?_qualified` and `get?_merge` say what a joined row holds
under each name, and a plain name reads nothing from it.
-/

namespace DocQuery

-- ── Names ───────────────────────────────────────────────────────────────────

/-- The name has no point in it. -/
def Plain (name : String) : Prop :=
  '.' ∉ name.toList

instance (name : String) : Decidable (Plain name) :=
  inferInstanceAs (Decidable ('.' ∉ name.toList))

theorem toList_qualify (table field : String) :
    (qualify table field).toList = table.toList ++ '.' :: field.toList := by
  simp [qualify]

/-- Under one table distinct fields have distinct names. -/
theorem qualify_injective (table : String) : Function.Injective (qualify table) := by
  intro f g h
  have hl := congrArg String.toList h
  rw [toList_qualify, toList_qualify] at hl
  exact String.toList_injective (List.cons_inj_right '.' |>.mp (List.append_cancel_left hl))

/-- The part of a list before the first of some character is determined by the list, and so is
    what follows it. -/
theorem append_cons_inj_of_not_mem {sep : Char} {cs ds r s : List Char} (hc : sep ∉ cs)
    (hd : sep ∉ ds) (h : cs ++ sep :: r = ds ++ sep :: s) : cs = ds ∧ r = s := by
  induction cs generalizing ds with
  | nil =>
      cases ds with
      | nil => exact ⟨rfl, (List.cons.inj h).2⟩
      | cons d ds =>
          rw [List.nil_append, List.cons_append, List.cons.injEq] at h
          exact absurd (h.1 ▸ List.mem_cons_self) hd
  | cons c cs ih =>
      cases ds with
      | nil =>
          rw [List.nil_append, List.cons_append, List.cons.injEq] at h
          exact absurd (h.1 ▸ List.mem_cons_self) hc
      | cons d ds =>
          rw [List.cons_append, List.cons_append, List.cons.injEq] at h
          obtain ⟨rfl, hrest⟩ := ih (fun hm => hc (List.mem_cons_of_mem _ hm))
            (fun hm => hd (List.mem_cons_of_mem _ hm)) h.2
          rw [h.1]
          exact ⟨rfl, hrest⟩

/-- Names qualified by plain tables are of one table if they are one name. -/
theorem table_eq_of_qualify_eq {t u f g : String} (ht : Plain t) (hu : Plain u)
    (h : qualify t f = qualify u g) : t = u := by
  have hl := congrArg String.toList h
  rw [toList_qualify, toList_qualify] at hl
  exact String.toList_injective (append_cons_inj_of_not_mem ht hu hl).1

/-- A plain name is not qualified. -/
theorem qualify_ne_of_plain {t f name : String} (h : Plain name) : name ≠ qualify t f := by
  intro heq
  refine h ?_
  rw [heq, toList_qualify]
  exact List.mem_append_right _ List.mem_cons_self

namespace Row

variable {t u f : String}

-- ── Qualified rows ──────────────────────────────────────────────────────────

/-- A qualified row has no key twice. -/
theorem nodup_qualified (t : String) (row : Row) :
    ((row.entries.map fun e => (qualify t e.1, e.2)).map Prod.fst).Nodup := by
  have h := row.nodup.map (qualify_injective t)
  rw [List.map_map] at h ⊢
  exact h

/-- A qualified row has a field under its qualified name. -/
@[simp] theorem get?_qualified (t f : String) (row : Row) :
    (row.qualified t).get? (qualify t f) = row.get? f := by
  rw [qualified, Keyed.get?_ofList, Keyed.findEntry_reverse (nodup_qualified t row)]
  have h := Keyed.findEntry_map (qualify_injective t) (id : Value → Value) f row.entries
  rw [Option.map_id] at h
  exact h

/-- A qualified row holds nothing but what it is given by its own row. -/
theorem eq_qualify_of_get?_qualified {row : Row} {key : String} {v : Value}
    (h : (row.qualified t).get? key = some v) : ∃ f, key = qualify t f ∧ row.get? f = some v := by
  rw [qualified, Keyed.get?_ofList] at h
  have hmem := List.mem_reverse.mp (Keyed.mem_of_findEntry h)
  obtain ⟨⟨f, w⟩, hrow, heq⟩ := List.mem_map.mp hmem
  cases heq
  exact ⟨f, rfl, Keyed.get?_eq_some_iff.mpr hrow⟩

/-- A qualified row has nothing under the name of another table. -/
theorem get?_qualified_of_ne {row : Row} (ht : Plain t) (hu : Plain u) (hne : t ≠ u) :
    (row.qualified t).get? (qualify u f) = none := by
  cases hv : (row.qualified t).get? (qualify u f) with
  | none => rfl
  | some v =>
      obtain ⟨g, hg, _⟩ := eq_qualify_of_get?_qualified hv
      exact absurd (table_eq_of_qualify_eq hu ht hg).symm hne

-- ── Merged rows ─────────────────────────────────────────────────────────────

/-- The right row wins where both have a key. -/
@[simp] theorem get?_merge (left right : Row) (key : String) :
    (left.merge right).get? key = (right.get? key).or (left.get? key) :=
  Keyed.get?_insertAll_entries left right key

theorem value_qualified (row : Row) : (row.qualified t).value (qualify t f) = row.value f := by
  rw [value, value, get?_qualified]

/-- A row of another table leaves what is under a table's names. -/
theorem get?_merge_qualified_of_ne {left right : Row} (ht : Plain t) (hu : Plain u)
    (hne : t ≠ u) :
    (left.merge (right.qualified t)).get? (qualify u f) = left.get? (qualify u f) := by
  rw [get?_merge, get?_qualified_of_ne ht hu hne, Option.none_or]

-- ── Rows of several tables ──────────────────────────────────────────────────

/-- Every name in the row is qualified by one of the tables. -/
def Within (tables : List String) (row : Row) : Prop :=
  ∀ key v, row.get? key = some v → ∃ t ∈ tables, ∃ f, key = qualify t f

/-- A qualified row is within its table. -/
theorem within_qualified (t : String) (row : Row) : (row.qualified t).Within [t] := by
  intro key v h
  obtain ⟨f, hf, -⟩ := eq_qualify_of_get?_qualified h
  exact ⟨t, List.mem_singleton_self t, f, hf⟩

/-- A merged row is within the tables of both. -/
theorem Within.merge {tables : List String} {left : Row} (h : left.Within tables) (t : String)
    (right : Row) : (left.merge (right.qualified t)).Within (tables ++ [t]) := by
  intro key v hv
  rw [get?_merge, Option.or_eq_some_iff] at hv
  rcases hv with hr | ⟨-, hl⟩
  · obtain ⟨u, hu, f, hf⟩ := within_qualified t right key v hr
    exact ⟨u, List.mem_append_right _ hu, f, hf⟩
  · obtain ⟨u, hu, f, hf⟩ := h key v hl
    exact ⟨u, List.mem_append_left _ hu, f, hf⟩

/-- A bare name reads nothing from a row of qualified names. -/
theorem Within.get?_plain {tables : List String} {row : Row} (h : row.Within tables)
    {name : String} (hname : Plain name) : row.get? name = none := by
  cases hv : row.get? name with
  | none => rfl
  | some v =>
      obtain ⟨u, -, f, hf⟩ := h name v hv
      exact absurd hf (qualify_ne_of_plain hname)

/-- A table that the row is not of has nothing in it. -/
theorem Within.get?_qualify {tables : List String} {row : Row} (h : row.Within tables)
    (htables : ∀ u ∈ tables, Plain u) (ht : Plain t) (hnot : t ∉ tables) :
    row.get? (qualify t f) = none := by
  cases hv : row.get? (qualify t f) with
  | none => rfl
  | some v =>
      obtain ⟨u, hu, g, hg⟩ := h _ v hv
      rw [table_eq_of_qualify_eq ht (htables u hu) hg] at hnot
      exact absurd hu hnot

/-- In a row of qualified names a field without a point is read under its table. -/
theorem Within.resolve_eq {tables : List String} {row : Row} (h : row.Within tables)
    (hf : Plain f) (table : Option String) (defaultTable : String) :
    row.resolve table f defaultTable = row.value (qualify (table.getD defaultTable) f) := by
  cases table with
  | none => rw [resolve, resolve?, h.get?_plain hf, Option.none_or, value]; rfl
  | some t => rw [resolve, resolve?, h.get?_plain hf, Option.or_none, value]; rfl

end Row

end DocQuery
