import DocQuery.Proofs.Engine.JoinHint
import DocQuery.Proofs.Result.Projection

/-!
# Where joined rows come from

Every row that is held after the joins joins one stored row of each table
(`mergedFrom_of_held`): joining one table after the other merges one row of each, in whichever of
the three ways the matches are found.
-/

namespace DocQuery

-- ── Joining stored rows ─────────────────────────────────────────────────────

/-- The row joins one stored row of each table. -/
def Row.MergedFrom (store : Store) (tables : List String) (row : Row) : Prop :=
  ∃ doc : String → Row,
    (∀ table ∈ tables, ∃ t, store.tables.get? table = some t ∧ doc table ∈ t.rows) ∧
      row = Row.joined tables doc

section Joined

variable {store : Store} {table : String} {t : StoredTable} {tables : List String} {row : Row}

theorem Row.mergedFrom_qualified (ht : store.tables.get? table = some t) (hrow : row ∈ t.rows) :
    (row.qualified table).MergedFrom store [table] := by
  refine ⟨fun _ => row, ?_, (joined_singleton table fun _ => row).symm⟩
  intro u hu
  rw [List.mem_singleton.mp hu]
  exact ⟨t, ht, hrow⟩

/-- A stored row of a further table may be merged. -/
theorem Row.MergedFrom.merge (h : row.MergedFrom store tables) (hnot : table ∉ tables)
    (ht : store.tables.get? table = some t) {r : Row} (hr : r ∈ t.rows) :
    (row.merge (r.qualified table)).MergedFrom store (tables ++ [table]) := by
  obtain ⟨doc, hdoc, rfl⟩ := h
  have hold : ∀ u ∈ tables, Function.update doc table r u = doc u := by
    intro u hu
    refine Function.update_of_ne ?_ _ _
    rintro rfl
    exact hnot hu
  refine ⟨Function.update doc table r, ?_, ?_⟩
  · intro u hu
    rcases List.mem_append.mp hu with hu | hu
    · rw [hold u hu]
      exact hdoc u hu
    · rw [List.mem_singleton.mp hu, Function.update_self]
      exact ⟨t, ht, hr⟩
  · rw [joined_append_singleton, Function.update_self, joined_congr hold]

/-- Joining one table after the other merges one row of each. -/
theorem mergedFrom_of_foldlM {plans : List JoinPlan} {left out : List Row}
    (hstore : store.Reachable Document.IsJson) (hplans : ∀ p ∈ plans, p.SelectsPushdown)
    (hnodup : (tables ++ plans.map JoinPlan.table).Nodup)
    (hleft : ∀ row ∈ left, row.MergedFrom store tables ∧ row.Keyable)
    (hout : (plans.foldlM (joinRows store) left).result = .ok out) :
    ∀ row ∈ out, row.MergedFrom store (tables ++ plans.map JoinPlan.table) := by
  have hkeys : ∀ table t, store.tables.get? table = some t → ∀ row ∈ t.rows, row.Keyable :=
    fun _ _ ht => hstore.keyable ht
  induction plans generalizing left tables with
  | nil =>
      intro row hrow
      rw [← Except.ok.inj hout] at hrow
      rw [List.map_nil, List.append_nil]
      exact (hleft row hrow).1
  | cons p plans ih =>
      rw [List.foldlM_cons] at hout
      obtain ⟨mid, hmid, hrest⟩ := Reading.result_bind_eq_ok hout
      rw [JoinPlan.append_tables_cons] at hnodup ⊢
      refine ih (fun q hq => hplans q (List.mem_cons_of_mem _ hq)) hnodup ?_ hrest
      intro row hrow
      obtain ⟨l, hl, t, ht, r, hr, rfl⟩ := (hplans p List.mem_cons_self).mem_joinRows hkeys
        (fun row hrow => (hleft row hrow).2) hmid hrow
      obtain ⟨hmerged, hkeyable⟩ := hleft l hl
      exact ⟨hmerged.merge (JoinPlan.table_not_mem hnodup) ht hr,
        hkeyable.merge ((hkeys _ t ht r hr).qualified _)⟩

end Joined

-- ── The rows that are held ──────────────────────────────────────────────────

namespace Select

variable {s : Select} {schema : Schema} {store : Store} {p : Plan} {source held : List Row}
  {direction : Option Direction} {count : Option Nat}

/-- A query on one table holds stored rows of that table. -/
theorem mem_of_held_single (hplan : s.plan schema = .ok p) (hjoins : s.joins = [])
    (hsource : (store.fetch p.table p.access direction count).result = .ok source)
    (hheld : (p.joinedRows store source).result = .ok held) {row : Row} (hrow : row ∈ held) :
    ∃ t, store.tables.get? s.source = some t ∧ row ∈ t.rows := by
  obtain ⟨htable, -, -, hplans, -⟩ := plan_eq_ok hplan
  rw [hjoins] at hplans
  rw [Plan.joinedRows, ← Except.ok.inj hplans] at hheld
  rw [← htable]
  refine Store.mem_of_fetch hsource ?_
  rw [Except.ok.inj hheld]
  exact hrow

/-- A query with joins holds rows that join one stored row of each of its tables. -/
theorem mergedFrom_of_held (hplan : s.plan schema = .ok p) (hnodup : s.tables.Nodup)
    (hstore : store.Reachable Document.IsJson) (hjoins : s.joins ≠ [])
    (hsource : (store.fetch p.table p.access direction count).result = .ok source)
    (hheld : (p.joinedRows store source).result = .ok held) :
    ∀ row ∈ held, row.MergedFrom store s.tables := by
  obtain ⟨htable, -, -, hplans, -⟩ := plan_eq_ok hplan
  have htables : s.tables = [s.source] ++ p.joins.map JoinPlan.table := by
    rw [tables_planJoins hplans]
    rfl
  have hne : p.joins.isEmpty = false := by
    rw [List.isEmpty_eq_false_iff]
    intro hnil
    have hlength := length_planJoins hplans
    rw [hnil] at hlength
    exact hjoins (List.eq_nil_of_length_eq_zero hlength.symm)
  rw [Plan.joinedRows, hne] at hheld
  obtain ⟨out, hout, hheld⟩ := Reading.result_bind_eq_ok hheld
  have hleft : ∀ row ∈ source.map (Row.qualified p.table),
      row.MergedFrom store [s.source] ∧ row.Keyable := by
    intro row hrow
    obtain ⟨r, hr, rfl⟩ := List.mem_map.mp hrow
    obtain ⟨t, ht, hr⟩ := Store.mem_of_fetch hsource hr
    rw [htable] at ht ⊢
    exact ⟨Row.mergedFrom_qualified ht hr, (hstore.keyable ht r hr).qualified _⟩
  intro row hrow
  rw [← Except.ok.inj hheld] at hrow
  rw [htables] at hnodup ⊢
  exact mergedFrom_of_foldlM hstore (selectsPushdown_of_planJoins hplans) hnodup hleft hout row
    (List.mem_of_mem_filter hrow)

end Select

end DocQuery
