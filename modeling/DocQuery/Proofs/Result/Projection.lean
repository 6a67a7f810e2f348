import DocQuery.Proofs.Store.Reachable
import DocQuery.Result.Projection

/-!
# What a star shows of a row

A star shows a row as it is. A table's star tells from the names of a row which fields are the
table's: it cuts the table's name off those that start with it. On a row that joins stored rows
under qualified names (`Row.joined`) this gives the table's stored row back, whatever its fields
are called (`projectRow_tableStar_joined`), since tables have plain names. On a row that is not
joined there is nothing to cut off, and a name with a point in it is taken for another table's:
just a row of plain names is shown as it is (`projectRow_tableStar_iff`).
-/

namespace DocQuery

variable {t u name f : String} {row : Row} {tables : List String} {doc : String → Row}

-- ── Names of a table ────────────────────────────────────────────────────────

/-- What is cut off stood in front. -/
theorem withoutStart?_eq_some_iff {start text rest : String} :
    withoutStart? start text = some rest ↔ text = start ++ rest := by
  rw [withoutStart?, Option.map_eq_some_iff]
  constructor
  · rintro ⟨cs, hcs, rfl⟩
    refine String.toList_injective ?_
    rw [String.toList_append, String.toList_ofList]
    exact (List.append_eq_of_isPrefixOf?_eq_some hcs).symm
  · rintro rfl
    refine ⟨rest.toList, ?_, String.ofList_toList⟩
    rw [List.isPrefixOf?_eq_some_iff_append_eq, String.toList_append]

theorem withoutStart?_qualify : withoutStart? (t ++ ".") name = some f ↔ name = qualify t f :=
  withoutStart?_eq_some_iff

theorem not_contains_point_iff : (!name.toList.contains '.') = true ↔ Plain name := by
  rw [Bool.not_eq_true', Plain, ← List.contains_iff_mem, Bool.not_eq_true]

/-- A row has plain names if no key has a dot. -/
theorem Row.hasPlainNames_iff : row.HasPlainNames ↔ ∀ e ∈ row.entries, Plain e.1 := by
  constructor
  · rintro h ⟨name, v⟩ hmem
    exact h name v (Keyed.get?_eq_some_iff.mpr hmem)
  · intro h name v hv
    exact h _ (Keyed.get?_eq_some_iff.mp hv)

/-- No name is the qualified form of itself. -/
theorem qualify_ne_self (t name : String) : qualify t name ≠ name := by
  intro h
  have hlength := congrArg (fun s => s.toList.length) h
  simp only [toList_qualify, List.length_append, List.length_cons] at hlength
  omega

/-- The entries of a table among qualified ones, under their bare names. -/
def stripped (t : String) (entries : List (String × Value)) : List (String × Value) :=
  entries.filterMap fun e => (withoutStart? (t ++ ".") e.1).map fun name => (name, e.2)

/-- The entries of a row under the names that a table gives them. -/
def Row.under (t : String) (row : Row) : List (String × Value) :=
  row.entries.map fun e => (qualify t e.1, e.2)

/-- What is left under a table was there under its name. -/
theorem mem_stripped {entries : List (String × Value)} {v : Value} :
    (f, v) ∈ stripped t entries ↔ (qualify t f, v) ∈ entries := by
  rw [stripped, List.mem_filterMap]
  constructor
  · rintro ⟨⟨name, w⟩, hmem, hsome⟩
    obtain ⟨g, hg, heq⟩ := Option.map_eq_some_iff.mp hsome
    cases heq
    rw [← withoutStart?_qualify.mp hg]
    exact hmem
  · intro hmem
    refine ⟨_, hmem, ?_⟩
    rw [withoutStart?_qualify.mpr rfl]
    rfl

/-- No field is left twice. -/
theorem nodup_stripped (t : String) (row : Row) :
    ((stripped t row.entries).map Prod.fst).Nodup := by
  have hnames : (stripped t row.entries).map Prod.fst
      = (row.entries.map Prod.fst).filterMap (withoutStart? (t ++ ".")) := by
    rw [stripped, List.map_filterMap, List.filterMap_map]
    refine List.filterMap_congr fun e _ => ?_
    rw [Option.map_map]
    exact Option.map_id'
  rw [hnames]
  refine row.nodup.filterMap ?_
  intro name other f hname hother
  rw [withoutStart?_qualify.mp hname, withoutStart?_qualify.mp hother]

/-- Entries all lose a name in front, so they do not stay as they are. -/
theorem eq_nil_of_stripped_eq {entries : List (String × Value)}
    (h : stripped t entries = entries) : entries = [] := by
  cases entries with
  | nil => rfl
  | cons e rest =>
      have hle : (stripped t rest).length ≤ rest.length := List.length_filterMap_le _ _
      rw [stripped, List.filterMap_cons] at h
      split at h
      · have hlength := congrArg List.length h
        rw [List.length_cons] at hlength
        rw [stripped] at hle
        omega
      · rename_i d hd
        obtain ⟨name, hname, rfl⟩ := Option.map_eq_some_iff.mp hd
        have hsame : name = e.1 := congrArg Prod.fst (List.cons.inj h).1
        rw [withoutStart?_qualify, hsame] at hname
        exact absurd hname.symm (qualify_ne_self t e.1)

/-- A row that was put under a table is left as it was. -/
theorem stripped_under (t : String) (row : Row) : stripped t (row.under t) = row.entries := by
  have hstrip : ∀ e : String × Value, (withoutStart? (t ++ ".") (qualify t e.1)).map
      (fun name => (name, e.2)) = some e := by
    intro e
    rw [withoutStart?_qualify.mpr rfl]
    rfl
  rw [stripped, Row.under, List.filterMap_map]
  exact (List.filterMap_congr fun e _ => hstrip e).trans List.filterMap_some

/-- The keys under a table are qualified with it. -/
theorem Row.exists_qualify_of_mem_under (h : name ∈ (row.under t).map Prod.fst) :
    ∃ f, name = qualify t f := by
  rw [under, List.map_map] at h
  obtain ⟨e, -, rfl⟩ := List.mem_map.mp h
  exact ⟨e.1, rfl⟩

/-- Among the entries of another table there is none. -/
theorem stripped_under_of_ne (ht : Plain t) (hu : Plain u) (hne : t ≠ u) (row : Row) :
    stripped t (row.under u) = [] := by
  refine List.eq_nil_iff_forall_not_mem.mpr ?_
  rintro ⟨f, v⟩ hmem
  obtain ⟨g, hg⟩ := Row.exists_qualify_of_mem_under
    (List.mem_map_of_mem (f := Prod.fst) (mem_stripped.mp hmem))
  exact hne (table_eq_of_qualify_eq ht hu hg)

-- ── Joined rows ─────────────────────────────────────────────────────────────

/-- The row that joins a row of each table, under qualified names. -/
def Row.joined (tables : List String) (doc : String → Row) : Row :=
  Keyed.ofList (tables.flatMap fun t => (doc t).under t)

namespace Row

/-- A joined row depends on the rows of its tables only. -/
theorem joined_congr {doc' : String → Row} (h : ∀ t ∈ tables, doc t = doc' t) :
    joined tables doc = joined tables doc' := by
  have hunder : ∀ t ∈ tables, (doc t).under t = (doc' t).under t := by
    intro t ht
    rw [h t ht]
  rw [joined, joined, List.flatMap_congr hunder]

theorem joined_singleton (t : String) (doc : String → Row) :
    joined [t] doc = (doc t).qualified t := by
  rw [joined, List.flatMap_singleton]
  rfl

theorem entries_qualified (t : String) (row : Row) : (row.qualified t).entries = row.under t :=
  Keyed.entries_ofList (nodup_qualified t row)

/-- One more table is joined by merging its row. -/
theorem joined_append_singleton (tables : List String) (t : String) (doc : String → Row) :
    joined (tables ++ [t]) doc = (joined tables doc).merge ((doc t).qualified t) := by
  rw [merge, entries_qualified, joined, joined, List.flatMap_append, List.flatMap_singleton]
  exact List.foldl_append

/-- A joined row has the fields of its tables only. -/
theorem within_joined (tables : List String) (doc : String → Row) :
    (joined tables doc).Within tables := by
  intro key v hv
  rw [joined, Keyed.get?_ofList] at hv
  obtain ⟨t, ht, hmem⟩ := List.mem_flatMap.mp (List.mem_reverse.mp (Keyed.mem_of_findEntry hv))
  obtain ⟨f, hf⟩ := exists_qualify_of_mem_under (List.mem_map_of_mem (f := Prod.fst) hmem)
  exact ⟨t, ht, f, hf⟩

/-- Fields of different tables have different names. -/
theorem nodup_joined (hplain : ∀ t ∈ tables, Plain t) (hnodup : tables.Nodup)
    (doc : String → Row) : ((tables.flatMap fun t => (doc t).under t).map Prod.fst).Nodup := by
  rw [List.map_flatMap]
  refine List.nodup_flatMap.mpr ⟨fun t _ => nodup_qualified t (doc t), ?_⟩
  refine hnodup.imp_of_mem ?_
  intro t u ht hu hne name hname hother
  obtain ⟨f, rfl⟩ := exists_qualify_of_mem_under hname
  obtain ⟨g, hg⟩ := exists_qualify_of_mem_under hother
  exact hne (table_eq_of_qualify_eq (hplain t ht) (hplain u hu) hg)

theorem entries_joined (hplain : ∀ t ∈ tables, Plain t) (hnodup : tables.Nodup)
    (doc : String → Row) :
    (joined tables doc).entries = tables.flatMap fun t => (doc t).under t :=
  Keyed.entries_ofList (nodup_joined hplain hnodup doc)

/-- Of a joined row the entries of a table are those of its own row. -/
theorem stripped_joined (hplain : ∀ t ∈ tables, Plain t) (hnodup : tables.Nodup)
    (ht : t ∈ tables) (doc : String → Row) :
    stripped t (joined tables doc).entries = (doc t).entries := by
  have hother : ∀ u ∈ tables, t ≠ u → stripped t ((doc u).under u) = [] :=
    fun u hu hne => stripped_under_of_ne (hplain t ht) (hplain u hu) hne _
  rw [entries_joined hplain hnodup, stripped, List.filterMap_flatMap]
  obtain ⟨before, after, rfl⟩ := List.append_of_mem ht
  have hnot := (List.nodup_cons.mp (List.nodup_middle.mp hnodup)).1
  rw [List.mem_append, not_or] at hnot
  have hbefore : before.flatMap (fun u => stripped t ((doc u).under u)) = [] := by
    refine List.flatMap_eq_nil_iff.mpr fun u hu => hother u (List.mem_append_left _ hu) ?_
    exact fun heq => hnot.1 (heq ▸ hu)
  have hafter : after.flatMap (fun u => stripped t ((doc u).under u)) = [] := by
    refine List.flatMap_eq_nil_iff.mpr fun u hu => hother u ?_ ?_
    · exact List.mem_append_right _ (List.mem_cons_of_mem _ hu)
    · exact fun heq => hnot.2 (heq ▸ hu)
  show (before ++ t :: after).flatMap (fun u => stripped t ((doc u).under u)) = _
  rw [List.flatMap_append, List.flatMap_cons, hbefore, hafter, stripped_under, List.append_nil,
    List.nil_append]

/-- Under the names of a table a joined row holds what the table's own row holds. -/
theorem get?_joined (hplain : ∀ t ∈ tables, Plain t) (hnodup : tables.Nodup) (ht : t ∈ tables)
    (doc : String → Row) (f : String) :
    (joined tables doc).get? (qualify t f) = (doc t).get? f := by
  refine Option.ext fun v => ?_
  rw [Keyed.get?_eq_some_iff, Keyed.get?_eq_some_iff, ← stripped_joined hplain hnodup ht doc,
    mem_stripped]

end Row

-- ── What a star shows ───────────────────────────────────────────────────────

/-- A star shows the row as it is. -/
theorem projectRow_star (source : String) (row : Row) : projectRow [.star] source row = row := by
  rw [projectRow, List.flatMap_singleton]
  exact Keyed.ofList_entries row

/-- The star of a table shows what is under it, or what has no dot if there is nothing. -/
theorem projectRow_tableStar_eq (t source : String) (row : Row) :
    projectRow [.tableStar t] source row = Keyed.ofList
      (if (stripped t row.entries).isEmpty && t == source then
        row.entries.filter fun e => !e.1.toList.contains '.'
      else stripped t row.entries) := by
  rw [projectRow, List.flatMap_singleton]
  rfl

/-- A table's star gives the row of the table back that was joined. -/
theorem projectRow_tableStar_joined (hplain : ∀ t ∈ tables, Plain t) (hnodup : tables.Nodup)
    (ht : t ∈ tables) (doc : String → Row) (source : String) :
    projectRow [.tableStar t] source (Row.joined tables doc) = doc t := by
  rw [projectRow_tableStar_eq, Row.stripped_joined hplain hnodup ht]
  split
  · -- a row without fields: the joined names all have a point in them
    rename_i hempty
    rw [Bool.and_eq_true, List.isEmpty_iff] at hempty
    have hnone : (Row.joined tables doc).entries.filter (fun e => !e.1.toList.contains '.')
        = [] := by
      refine List.filter_eq_nil_iff.mpr fun e he hname => ?_
      obtain ⟨u, -, f, hf⟩ := Row.within_joined tables doc e.1 e.2 (Keyed.get?_eq_some_iff.mpr he)
      exact qualify_ne_of_plain (not_contains_point_iff.mp hname) hf
    refine Keyed.eq_of_entries_eq ?_
    rw [hempty.1, hnone]
    rfl
  · exact Keyed.ofList_entries (doc t)

/-- The star of the table itself shows a row that is not joined as it is just if no name in it
    has a point. -/
theorem projectRow_tableStar_iff (t : String) (row : Row) :
    projectRow [.tableStar t] t row = row ↔ row.HasPlainNames := by
  rw [projectRow_tableStar_eq, beq_self_eq_true, Bool.and_true, Row.hasPlainNames_iff]
  by_cases hnone : stripped t row.entries = []
  · rw [hnone, List.isEmpty_nil, if_pos rfl]
    have hentries : (Keyed.ofList (row.entries.filter fun e => !e.1.toList.contains '.')).entries
        = row.entries.filter fun e => !e.1.toList.contains '.' :=
      Keyed.entries_ofList (row.nodup.sublist (List.filter_sublist.map _))
    have hplain : (row.entries.filter fun e => !e.1.toList.contains '.') = row.entries
        ↔ ∀ e ∈ row.entries, Plain e.1 := by
      rw [List.filter_eq_self]
      exact forall₂_congr fun e _ => not_contains_point_iff
    rw [← hplain]
    constructor
    · intro h
      rw [← hentries, h]
    · intro h
      exact Keyed.eq_of_entries_eq (hentries.trans h)
  · -- what is cut off a name is missing in the result
    rw [if_neg (by rwa [List.isEmpty_iff])]
    refine iff_of_false ?_ ?_
    · intro h
      have hsame := Keyed.entries_ofList (nodup_stripped t row)
      rw [h] at hsame
      refine hnone ?_
      rw [← hsame]
      exact eq_nil_of_stripped_eq hsame.symm
    · intro h
      obtain ⟨⟨f, v⟩, hmem⟩ := List.exists_mem_of_ne_nil _ hnone
      exact qualify_ne_of_plain (h _ (mem_stripped.mp hmem)) rfl

end DocQuery
