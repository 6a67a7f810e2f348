import DocQuery.Proofs.Engine.JoinHint
import DocQuery.Proofs.Engine.Product
import DocQuery.Proofs.Engine.Rearranged

/-!
# The order and the sides of equalities do not matter to a join

A table is keyed by the first of its equalities that can give a key, and matches are found in the
bucket of that key. Which equality it is does not matter: the matches are those of every pair, in
the same order, as each of them is tested again on the merged row. So equalities may come in any
order and with their sides exchanged. Such joins are planned alike (`JoinPlan.ofJoin_rearranged`),
join the same rows to the same rows before (`JoinPlan.Rejoined.joinRows_eq`), and queries with them
are accepted together and have one outcome (`equalities_rearranged`).
-/

namespace DocQuery

-- ── Equalities in another order ─────────────────────────────────────────────

namespace JoinCondition

/-- The equality is the other, or the other with its sides exchanged. -/
def Turned (c d : JoinCondition) : Prop :=
  d = c ∨ d = c.flipped

/-- The equalities are the same, or give no key of the table and differ in their sides. -/
def KeyedAlike (table : String) (c d : JoinCondition) : Prop :=
  d = c ∨ d = c.flipped ∧ c.isProbeOf table = false ∧ d.isProbeOf table = false

/-- The equalities of one list are those of the other, in some order, each related to its
    counterpart. -/
def Rearranged (R : JoinCondition → JoinCondition → Prop) (cs ds : List JoinCondition) : Prop :=
  ∃ es, cs.Perm es ∧ List.Forall₂ R es ds

variable {table : String} {c d : JoinCondition} {R S : JoinCondition → JoinCondition → Prop}
  {cs ds : List JoinCondition}

/-- To turn a condition back is to turn it. -/
theorem Turned.symm (h : Turned c d) : Turned d c := by
  rcases h with rfl | rfl
  · exact Or.inl rfl
  · exact Or.inr rfl

theorem KeyedAlike.turned (h : KeyedAlike table c d) : Turned c d :=
  h.imp_right And.left

/-- A turned condition holds where the condition does. -/
theorem Turned.holds_eq (h : Turned c d) (row : Row) : d.holds row = c.holds row := by
  rcases h with rfl | rfl
  · rfl
  · exact holds_flipped c row

/-- Conditions that are keyed alike probe the same table or none. -/
theorem KeyedAlike.isProbeOf_eq (h : KeyedAlike table c d) :
    d.isProbeOf table = c.isProbeOf table := by
  rcases h with rfl | ⟨-, hc, hd⟩
  · rfl
  · rw [hc, hd]

/-- With the table on the right side, equalities that differ in their sides are the same if one of
    the sides is of the table. -/
theorem Turned.facing (h : Turned c d) (table : String) :
    KeyedAlike table (c.facing table) (d.facing table) := by
  rcases h with rfl | rfl
  · exact Or.inl rfl
  · obtain ⟨left, leftField, right, rightField⟩ := c
    by_cases hl : left = table <;> by_cases hr : right = table <;>
      simp [KeyedAlike, JoinCondition.facing, isProbeOf, flipped, hl, hr]

/-- A turned condition comes no earlier. -/
theorem Turned.tooEarly?_eq_none {joined : List String} (h : Turned c d)
    (hc : c.tooEarly? table joined = none) : d.tooEarly? table joined = none := by
  rcases h with rfl | rfl
  · exact hc
  · rw [tooEarly?, List.find?_eq_none] at hc ⊢
    intro t ht
    exact hc t (List.mem_pair.mpr (List.mem_pair.mp ht).symm)

namespace Rearranged

/-- A rearrangement can be undone. -/
theorem symm (hR : ∀ c d, R c d → S d c) (h : Rearranged R cs ds) : Rearranged S ds cs := by
  obtain ⟨es, hperm, hrel⟩ := h
  obtain ⟨fs, hfs, hds⟩ := List.perm_comp_forall₂ hperm hrel
  exact ⟨fs, hds.symm, (hfs.imp hR).flip⟩

/-- Each of the new conditions comes of an old one. -/
theorem mem (h : Rearranged R cs ds) (hd : d ∈ ds) : ∃ c ∈ cs, R c d := by
  obtain ⟨es, hperm, hrel⟩ := h
  obtain ⟨i, hi, rfl⟩ := List.mem_iff_getElem.mp hd
  have hi' : i < es.length := by rwa [hrel.length_eq]
  exact ⟨es[i], hperm.mem_iff.mpr (List.getElem_mem hi'), hrel.get hi' hi⟩

/-- What related equalities have in common, the lists have in common. -/
theorem map_perm {β : Type} {f : JoinCondition → β} (hf : ∀ c d, R c d → f d = f c)
    (h : Rearranged R cs ds) : (cs.map f).Perm (ds.map f) := by
  obtain ⟨es, hperm, hrel⟩ := h
  refine (hperm.map f).trans (List.Perm.of_eq ?_)
  induction hrel generalizing cs with
  | nil => rfl
  | cons hcd _ ih => rw [List.map_cons, List.map_cons, hf _ _ hcd, ih (List.Perm.refl _)]

/-- A test that the relation respects passes on both sides or on none. -/
theorem all_eq {p : JoinCondition → Bool} (hp : ∀ c d, R c d → p d = p c)
    (h : Rearranged R cs ds) : ds.all p = cs.all p := by
  have hall := (h.map_perm hp).all_eq (f := id)
  rw [List.all_map, List.all_map] at hall
  exact hall.symm

/-- There are as many conditions as before. -/
theorem length_eq (h : Rearranged R cs ds) : ds.length = cs.length := by
  obtain ⟨es, hperm, hrel⟩ := h
  rw [hperm.length_eq, hrel.length_eq]

/-- Faced to one table, turned conditions are keyed alike. -/
theorem facing (h : Rearranged Turned cs ds) (table : String) :
    Rearranged (KeyedAlike table) (cs.map (JoinCondition.facing table))
      (ds.map (JoinCondition.facing table)) := by
  obtain ⟨es, hperm, hrel⟩ := h
  refine ⟨es.map (JoinCondition.facing table), hperm.map _, ?_⟩
  rw [List.forall₂_map_left_iff, List.forall₂_map_right_iff]
  exact hrel.imp fun c d hcd => hcd.facing table

/-- Both lists have an equality that gives a key, or neither has. -/
theorem isSome_probe? (h : Rearranged (KeyedAlike table) cs ds) :
    (probe? table ds).isSome = (probe? table cs).isSome := by
  have hany : ∀ l : List JoinCondition,
      (probe? table l).isSome = (l.map (·.isProbeOf table)).any id := by
    intro l
    rw [probe?, List.any_map, Bool.eq_iff_iff, List.find?_isSome, List.any_eq_true]
    exact Iff.rfl
  rw [hany, hany]
  exact ((h.map_perm fun c d hcd => hcd.isProbeOf_eq).any_eq (f := id)).symm

/-- A single equality that gives a key is the same in both. -/
theorem eq_of_length_eq_one (h : Rearranged (KeyedAlike table) cs ds) (hlength : cs.length = 1)
    (hprobe : (probe? table cs).isSome = true) : ds = cs := by
  obtain ⟨c, rfl⟩ := List.length_eq_one_iff.mp hlength
  obtain ⟨d, rfl⟩ := List.length_eq_one_iff.mp (h.length_eq.trans hlength)
  obtain ⟨c', hc', hcd⟩ := h.mem List.mem_cons_self
  rw [List.mem_singleton.mp hc'] at hcd
  rcases hcd with rfl | ⟨-, hc, -⟩
  · rfl
  · rw [probe?, List.find?_isSome] at hprobe
    obtain ⟨x, hx, hisProbe⟩ := hprobe
    rw [List.mem_singleton.mp hx, hc] at hisProbe
    exact nomatch hisProbe

end Rearranged

end JoinCondition

-- ── Joins with rearranged equalities ────────────────────────────────────────

/-- The joins differ in the order of their equalities and in the sides of these. -/
structure Join.Rearranged (j j' : Join) : Prop where
  table : j'.table = j.table
  indexHint : j'.indexHint = j.indexHint
  conditions : JoinCondition.Rearranged JoinCondition.Turned j.conditions j'.conditions

theorem Join.Rearranged.symm {j j' : Join} (h : j.Rearranged j') : j'.Rearranged j :=
  ⟨h.table.symm, h.indexHint.symm, h.conditions.symm fun _ _ hcd => hcd.symm⟩

namespace JoinPlan

/-- The plans differ in the order of the equalities and in the sides of those that give no key.
    Where look-ups are planned they do not differ at all. -/
structure Rejoined (p p' : JoinPlan) : Prop where
  table : p'.table = p.table
  access : p'.access = p.access
  conditions : JoinCondition.Rearranged (JoinCondition.KeyedAlike p.table) p.conditions
    p'.conditions
  eq_or : p' = p ∨ ∀ index, p.strategy ≠ .indexedLookup index ∧ p'.strategy ≠ .indexedLookup index

variable {schema : Schema} {joined : List String} {conjuncts : List Condition} {p p' : JoinPlan}
  {store : Store} {left out : List Row}

/-- Look-ups are planned for a single equality that gives a key. -/
theorem of_strategyFor {join : Join} {conditions : List JoinCondition} {index : String}
    (h : strategyFor schema join conditions = .indexedLookup index) :
    conditions.length = 1 ∧ (JoinCondition.probe? join.table conditions).isSome = true := by
  rw [strategyFor] at h
  split at h
  · cases h
  · cases h
  · rename_i hprobe _
    dsimp only at h
    split at h
    · rename_i hserved
      exact ⟨hserved.1, by rw [hprobe]; rfl⟩
    · cases h

/-- Joins with rearranged equalities are accepted together, and planned alike. -/
theorem ofJoin_rearranged {join join' : Join} (h : join.Rearranged join')
    (hp : ofJoin schema joined conjuncts join = .ok p) :
    ∃ p', ofJoin schema joined conjuncts join' = .ok p' ∧ p.Rejoined p' := by
  obtain ⟨table, hint, cs⟩ := join
  obtain ⟨table', hint', ds⟩ := join'
  obtain ⟨rfl, rfl, hconditions⟩ : table' = table ∧ hint' = hint ∧ _ :=
    ⟨h.table, h.indexHint, h.conditions⟩
  dsimp only at hconditions
  have halike := hconditions.facing table'
  rw [ofJoin] at hp ⊢
  dsimp only at hp ⊢
  split at hp
  · cases hp
  · rename_i hfind
    obtain rfl := Except.ok.inj hp
    rw [List.findSome?_eq_none_iff] at hfind
    have hfind' : (ds.map (JoinCondition.facing table')).findSome?
        (JoinCondition.tooEarly? table' joined) = none := by
      refine List.findSome?_eq_none_iff.mpr ?_
      intro d hd
      obtain ⟨c, hc, hcd⟩ := halike.mem hd
      exact hcd.turned.tooEarly?_eq_none (hfind c hc)
    rw [hfind']
    refine ⟨_, rfl, rfl, rfl, halike, ?_⟩
    by_cases hsingle : (cs.map (JoinCondition.facing table')).length = 1 ∧
        (JoinCondition.probe? table' (cs.map (JoinCondition.facing table'))).isSome = true
    · refine Or.inl ?_
      rw [halike.eq_of_length_eq_one hsingle.1 hsingle.2]
      rfl
    · refine Or.inr ?_
      intro index
      refine ⟨fun heq => hsingle (of_strategyFor heq), fun heq => hsingle ?_⟩
      obtain ⟨hlength, hprobe⟩ := of_strategyFor heq
      exact ⟨halike.length_eq.symm.trans hlength, halike.isSome_probe?.symm.trans hprobe⟩

/-- Without look-ups a join reads its table once. -/
theorem joinRows_of_ne (h : ∀ index, p.strategy ≠ .indexedLookup index) :
    joinRows store left p = scanJoin store p left := by
  rw [joinRows]
  split
  · rename_i index c hstrategy _
    exact absurd hstrategy (h index)
  · rfl

/-- A join by scan matches what it fetched. -/
theorem scanJoin_eq (store : Store) (p : JoinPlan) (left : List Row) :
    scanJoin store p left = (store.fetch p.table p.access none none >>= fun rows =>
      pure (p.matchesOf left (rows.map (Row.qualified p.table)))) := by
  rw [scanJoin]
  refine congrArg (_ >>= ·) (funext fun rows => ?_)
  rw [matchesOf]
  cases p.probe? <;> rfl

/-- The tables of rearranged conditions have plain names. -/
theorem Rejoined.plain_conditions (h : p.Rejoined p')
    (hsides : ∀ c ∈ p.conditions, Plain c.leftTable ∧ Plain c.rightTable) :
    ∀ d ∈ p'.conditions, Plain d.leftTable := by
  intro d hd
  obtain ⟨c, hc, hcd⟩ := h.conditions.mem hd
  rcases hcd.turned with rfl | rfl
  · exact (hsides _ hc).1
  · exact (hsides _ hc).2

/-- Such plans join the same rows, in the same order, and open as many scans. -/
theorem Rejoined.joinRows_eq (h : p.Rejoined p') (htable : Plain p.table)
    (hsides : ∀ c ∈ p.conditions, Plain c.leftTable ∧ Plain c.rightTable)
    (hleft : ∀ l ∈ left, l.Lacks p.table) : joinRows store left p' = joinRows store left p := by
  rcases h.eq_or with rfl | hstrategies
  · rfl
  · rw [joinRows_of_ne fun index => (hstrategies index).1,
      joinRows_of_ne fun index => (hstrategies index).2, scanJoin_eq, scanJoin_eq, h.table,
      h.access]
    refine congrArg (_ >>= ·) (funext fun rows => congrArg pure ?_)
    have hright : ∀ r ∈ rows.map (Row.qualified p.table), r.Within [p.table] := by
      intro r hr
      obtain ⟨stored, -, rfl⟩ := List.mem_map.mp hr
      exact Row.within_qualified _ stored
    have hmatches := matchesOf_eq_nestedLoop htable (fun c hc => (hsides c hc).1) hleft hright
    rw [← h.table] at htable hleft hright
    have hmatches' := matchesOf_eq_nestedLoop htable (h.plain_conditions hsides) hleft hright
    rw [h.table] at hmatches'
    rw [hmatches, hmatches', nestedLoop, nestedLoop]
    -- every pair is tested by the same equalities
    refine List.flatMap_congr ?_
    intro l _
    refine List.filter_congr ?_
    intro row _
    exact h.conditions.all_eq fun c d hcd => hcd.turned.holds_eq row

/-- Joined rows have names of the tables before and of the joined one. -/
theorem within_joinRows {tables : List String} (hleft : ∀ l ∈ left, l.Within tables)
    (hout : (joinRows store left p).result = .ok out) :
    ∀ row ∈ out, row.Within (tables ++ [p.table]) := by
  have hmerge : ∀ (rows : List Row) (row : Row), (∃ l ∈ left,
      ∃ r ∈ rows.map (Row.qualified p.table), row = l.merge r) →
      row.Within (tables ++ [p.table]) := by
    rintro rows row ⟨l, hl, r, hr, rfl⟩
    obtain ⟨stored, -, rfl⟩ := List.mem_map.mp hr
    exact (hleft l hl).merge _ stored
  intro row hrow
  by_cases hlooks : p.LooksUp store left
  · obtain ⟨index, c, hstrategy, hprobe, hserved⟩ := hlooks
    rw [joinRows_eq_lookupByKey hstrategy hprobe (granted_lookupByKey_iff.mpr hserved)] at hout
    obtain ⟨buckets, hfound, hout⟩ := bind_eq_ok_iff.mp hout
    obtain ⟨found, -, hbuckets⟩ := Reading.result_bind_eq_ok hfound
    rw [← Except.ok.inj hout, ← Except.ok.inj hbuckets] at hrow
    exact hmerge _ row (mem_probe hrow)
  · rw [joinRows_eq_scanJoin hlooks, scanJoin_eq] at hout
    obtain ⟨rows, -, hmatches⟩ := Reading.result_bind_eq_ok hout
    rw [← Except.ok.inj hmatches] at hrow
    exact hmerge _ row (mem_matchesOf hrow)

end JoinPlan

/-- Readings that go on alike from what was read are the same. -/
theorem Reading.bind_congr {α β : Type} {r : Reading α} {f g : α → Reading β}
    (h : ∀ a, r.result = .ok a → f a = g a) : (r >>= f) = (r >>= g) := by
  show r.andThen f = r.andThen g
  rw [andThen, andThen]
  cases hr : r.result with
  | error e => rfl
  | ok a =>
      dsimp only
      rw [h a hr]

/-- Such joins of one table after the other have the same outcome. -/
theorem foldlM_joinRows_rejoined {plans plans' : List JoinPlan}
    (h : List.Forall₂ JoinPlan.Rejoined plans plans') (store : Store) {tables : List String}
    {left : List Row} (hplain : ∀ u ∈ tables ++ plans.map JoinPlan.table, Plain u)
    (hnodup : (tables ++ plans.map JoinPlan.table).Nodup)
    (hsides : ∀ p ∈ plans, ∀ c ∈ p.conditions, Plain c.leftTable ∧ Plain c.rightTable)
    (hleft : ∀ l ∈ left, l.Within tables) :
    plans'.foldlM (joinRows store) left = plans.foldlM (joinRows store) left := by
  induction h generalizing tables left with
  | nil => rfl
  | @cons p p' plans plans' hp _ ih =>
      rw [JoinPlan.append_tables_cons] at hplain hnodup
      have hbefore : ∀ u ∈ tables, Plain u := fun u hu =>
        hplain u (List.mem_append_left _ (List.mem_append_left _ hu))
      have htable : Plain p.table :=
        hplain _ (List.mem_append_left _ (List.mem_append_right _ (List.mem_singleton_self _)))
      have hlacks : ∀ l ∈ left, l.Lacks p.table := fun l hl =>
        (hleft l hl).lacks hbefore htable (JoinPlan.table_not_mem hnodup)
      rw [List.foldlM_cons, List.foldlM_cons,
        hp.joinRows_eq htable (hsides p List.mem_cons_self) hlacks]
      refine Reading.bind_congr ?_
      intro mid hmid
      exact ih hplain hnodup (fun q hq => hsides q (List.mem_cons_of_mem _ hq))
        (JoinPlan.within_joinRows hleft hmid)

-- ── Queries with rearranged equalities ──────────────────────────────────────

namespace Select

variable {s : Select} {schema : Schema} {joins joins' : List Join} {p : Plan}

/-- The joins of one query are those of the other with their equalities rearranged. -/
def JoinsRearranged (joins joins' : List Join) : Prop :=
  List.Forall₂ Join.Rearranged joins joins'

theorem JoinsRearranged.symm (h : JoinsRearranged joins joins') : JoinsRearranged joins' joins :=
  (h.imp fun _ _ hj => hj.symm).flip

/-- The joined tables stay in their order. -/
theorem JoinsRearranged.tables_eq (h : JoinsRearranged joins joins') :
    joins'.map Join.table = joins.map Join.table := by
  induction h with
  | nil => rfl
  | cons hj _ ih => rw [List.map_cons, List.map_cons, hj.table, ih]

/-- The equalities are on the same tables. -/
theorem JoinsRearranged.mem_sides (h : JoinsRearranged joins joins') {t : String}
    (ht : t ∈ joins'.flatMap fun j => j.conditions.flatMap fun c => [c.leftTable, c.rightTable]) :
    t ∈ joins.flatMap fun j => j.conditions.flatMap fun c => [c.leftTable, c.rightTable] := by
  induction h with
  | nil => exact ht
  | cons hj _ ih =>
      rw [List.flatMap_cons, List.mem_append] at ht ⊢
      rcases ht with ht | ht
      · obtain ⟨d, hd, ht⟩ := List.mem_flatMap.mp ht
        obtain ⟨c, hc, hcd⟩ := hj.conditions.mem hd
        refine Or.inl (List.mem_flatMap.mpr ⟨c, hc, ?_⟩)
        rcases hcd with rfl | rfl
        · exact ht
        · exact List.mem_pair.mpr (List.mem_pair.mp ht).symm
      · exact Or.inr (ih ht)

theorem JoinsRearranged.tables_withJoins (h : JoinsRearranged s.joins joins) :
    (s.withJoins joins).tables = s.tables :=
  congrArg (s.source :: ·) h.tables_eq

/-- A query with rearranged equalities passes the check if the query does. -/
theorem check_of_joinsRearranged (h : JoinsRearranged s.joins joins) (hcheck : s.check = .ok ()) :
    (s.withJoins joins).check = .ok () := by
  obtain ⟨hqualifiers, hrest⟩ := check_eq_ok_iff.mp hcheck
  obtain ⟨hrepeated, hmem⟩ := checkQualifiers_eq_ok_iff.mp hqualifiers
  refine check_eq_ok_iff.mpr ⟨checkQualifiers_eq_ok_iff.mpr ⟨?_, ?_⟩, hrest⟩
  · rw [h.tables_withJoins]
    exact hrepeated
  · intro t ht
    rw [h.tables_withJoins]
    refine hmem t ?_
    have hsides := h.mem_sides (t := t)
    simp only [qualifiers, withJoins, List.mem_append] at ht ⊢
    tauto

/-- Rearranged joins are planned if the joins are, and alike. -/
theorem planJoins_rearranged {joined : List String} {plans : List JoinPlan}
    (h : JoinsRearranged joins joins') (hplans : s.planJoins schema joined joins = .ok plans) :
    ∃ plans', s.planJoins schema joined joins' = .ok plans' ∧
      List.Forall₂ JoinPlan.Rejoined plans plans' := by
  induction h generalizing joined plans with
  | nil =>
      rw [← Except.ok.inj hplans]
      exact ⟨[], rfl, .nil⟩
  | cons hj _ ih =>
      obtain ⟨p, ps, rfl, hp, hps⟩ := planJoins_cons hplans
      obtain ⟨p', hp', hrejoined⟩ := JoinPlan.ofJoin_rearranged hj hp
      obtain ⟨ps', hps', hrest⟩ := ih hps
      refine ⟨p' :: ps', planJoins_cons_eq_ok.mpr ⟨p', ps', rfl, ?_, ?_⟩, .cons hrejoined hrest⟩
      · rw [hj.table]
        exact hp'
      · rw [hj.table]
        exact hps'

/-- Queries with rearranged equalities have the same plan but for the joins. -/
theorem plan_of_joinsRearranged (h : JoinsRearranged s.joins joins) (hp : s.plan schema = .ok p) :
    ∃ plans, (s.withJoins joins).plan schema = .ok { p with joins := plans } ∧
      List.Forall₂ JoinPlan.Rejoined p.joins plans := by
  rw [plan] at hp
  obtain ⟨⟨⟩, htables, hp⟩ := bind_eq_ok_iff.mp hp
  obtain ⟨access, haccess, hp⟩ := bind_eq_ok_iff.mp hp
  obtain ⟨plans, hplans, hp⟩ := bind_eq_ok_iff.mp hp
  obtain rfl := Except.ok.inj hp
  obtain ⟨plans', hplans', hrejoined⟩ := planJoins_rearranged h hplans
  have htables' : (s.withJoins joins).checkTables schema = .ok () := by
    rw [checkTables, missingTable?, h.tables_withJoins]
    exact htables
  have hsame : ∀ table, (s.withJoins joins).joinedConjuncts table = s.joinedConjuncts table :=
    fun _ => rfl
  have horder : (s.withJoins joins).orderStrategy access = s.orderStrategy access := by
    have hempty : s.joins.isEmpty = (s.withJoins joins).joins.isEmpty := Plan.isEmpty_alike h
    rw [orderStrategy, orderStrategy, hempty]
    rfl
  refine ⟨plans', ?_, hrejoined⟩
  rw [plan, htables']
  refine bind_eq_ok_iff.mpr ⟨(), rfl, bind_eq_ok_iff.mpr ⟨access, haccess,
    bind_eq_ok_iff.mpr ⟨plans', (planJoins_congr hsame _ _).trans hplans', ?_⟩⟩⟩
  rw [horder]
  rfl

/-- The equalities of a plan are on tables of the query. -/
theorem plain_of_planJoins (hcheck : s.check = .ok ()) (hplain : ∀ t ∈ s.tables, Plain t)
    {joined : List String} {plans : List JoinPlan}
    (hplans : s.planJoins schema joined s.joins = .ok plans) :
    ∀ p ∈ plans, ∀ c ∈ p.conditions, Plain c.leftTable ∧ Plain c.rightTable := by
  intro p hp c hc
  obtain ⟨join, hjoin, before, hof⟩ := exists_ofJoin_of_mem hplans hp
  obtain ⟨-, -, -, hconditions, -⟩ := JoinPlan.ofJoin_eq_ok hof
  rw [hconditions] at hc
  obtain ⟨c₀, hc₀, rfl⟩ := List.mem_map.mp hc
  have hside : ∀ t ∈ [c₀.leftTable, c₀.rightTable], Plain t := by
    intro t ht
    refine hplain t ((check_eq_ok hcheck).qualifiers t ?_)
    have hmem : t ∈ s.joins.flatMap fun j =>
        j.conditions.flatMap fun c => [c.leftTable, c.rightTable] :=
      List.mem_flatMap.mpr ⟨join, hjoin, List.mem_flatMap.mpr ⟨c₀, hc₀, ht⟩⟩
    simp only [qualifiers, List.mem_append]
    tauto
  have hleft := hside _ List.mem_cons_self
  have hright := hside _ (List.mem_cons_of_mem _ List.mem_cons_self)
  rcases JoinCondition.facing_eq_or c₀ join.table with heq | heq
  · rw [heq]
    exact ⟨hleft, hright⟩
  · rw [heq]
    exact ⟨hright, hleft⟩

/-- Plans with rejoined tables run alike. -/
theorem run_of_joinsRearranged (hcheck : s.check = .ok ()) (hplain : ∀ t ∈ s.tables, Plain t)
    (hp : s.plan schema = .ok p) {plans : List JoinPlan}
    (h : List.Forall₂ JoinPlan.Rejoined p.joins plans) (store : Store) (maxRows : Nat) :
    { p with joins := plans }.run (s.withJoins joins) store maxRows = p.run s store maxRows := by
  obtain ⟨htable, -, -, hplans, -⟩ := plan_eq_ok hp
  have htables : s.tables = [p.table] ++ p.joins.map JoinPlan.table := by
    rw [tables_planJoins hplans, htable]
    rfl
  have hempty : plans.isEmpty = p.joins.isEmpty := (Plan.isEmpty_alike h).symm
  have hjoined : ∀ source : List Row, plans.foldlM (joinRows store)
      (source.map (Row.qualified p.table)) = p.joins.foldlM (joinRows store)
        (source.map (Row.qualified p.table)) := by
    intro source
    refine foldlM_joinRows_rejoined h store (htables ▸ hplain)
      (htables ▸ (check_eq_ok hcheck).nodup) (plain_of_planJoins hcheck hplain hplans) ?_
    intro l hl
    obtain ⟨stored, -, rfl⟩ := List.mem_map.mp hl
    exact Row.within_qualified _ stored
  have hrows : ∀ source, { p with joins := plans }.joinedRows store source
      = p.joinedRows store source := by
    intro source
    rw [Plan.joinedRows, Plan.joinedRows]
    dsimp only
    rw [hempty, hjoined]
  have hcount : { p with joins := plans }.pushedLimit (s.withJoins joins) = p.pushedLimit s := by
    rw [Plan.pushedLimit, Plan.pushedLimit]
    dsimp only
    rw [hempty]
    rfl
  rw [Plan.run, Plan.run, hcount]
  refine congrArg (_ >>= ·) (funext fun source => ?_)
  rw [hrows]
  rfl

end Select

/-- A query with rearranged equalities is prepared if the query is, and runs alike. -/
theorem Engine.prepareWith_of_joinsRearranged {limits : Limits} {schema : Schema} {s : Select}
    {joins : List Join} (hplain : ∀ t ∈ s.tables, Plain t)
    (h : Select.JoinsRearranged s.joins joins) {p : Prepared}
    (hp : prepareWith limits schema s = .ok p) :
    ∃ p', prepareWith limits schema (s.withJoins joins) = .ok p' ∧ p.RunsAlike p' := by
  obtain ⟨htables, hlimits, hcheck, hplan⟩ := prepareWith_eq_ok.mp hp
  obtain ⟨query, plan⟩ := p
  dsimp only at hlimits hcheck hplan
  have hquery := (Limits.enforce_eq_ok hlimits).1
  have hjoins : query.joins = s.joins := by rw [hquery]
  have hplain' : ∀ t ∈ query.tables, Plain t := by
    rw [hquery]
    exact hplain
  rw [← hjoins] at h
  obtain ⟨plans, hplan', hrejoined⟩ := Select.plan_of_joinsRearranged h hplan
  have htables' : (s.withJoins joins).checkTables schema = .ok () := by
    rw [hjoins] at h
    rw [Select.checkTables, Select.missingTable?, h.tables_withJoins]
    exact htables
  have hlimits' : limits.enforce (s.withJoins joins) = .ok (query.withJoins joins) := by
    rw [Limits.enforce_comm (f := (·.withJoins joins)) rfl rfl rfl fun _ => rfl, hlimits]
    rfl
  refine ⟨⟨query.withJoins joins, { plan with joins := plans }⟩, prepareWith_eq_ok.mpr
    ⟨htables', hlimits', Select.check_of_joinsRearranged h hcheck, hplan'⟩, ?_⟩
  intro store maxRows
  exact (Select.run_of_joinsRearranged hcheck hplain' hplan hrejoined store maxRows).symm

/-- Queries with rearranged equalities are prepared together. -/
theorem Engine.prepareWith_isOk_rearranged {limits : Limits} {schema : Schema} {s : Select}
    {joins : List Join} (hplain : ∀ t ∈ s.tables, Plain t)
    (h : Select.JoinsRearranged s.joins joins) :
    (∃ p, prepareWith limits schema s = .ok p) ↔
      ∃ p, prepareWith limits schema (s.withJoins joins) = .ok p := by
  constructor
  · rintro ⟨p, hp⟩
    obtain ⟨p', hp', -⟩ := prepareWith_of_joinsRearranged hplain h hp
    exact ⟨p', hp'⟩
  · rintro ⟨p', hp'⟩
    rw [← h.tables_withJoins] at hplain
    obtain ⟨p, hp, -⟩ := prepareWith_of_joinsRearranged hplain h.symm hp'
    exact ⟨p, hp⟩

/-- Then they have one outcome. -/
theorem Engine.executeQuery_of_joinsRearranged {e : Engine} {db : Database} {s : Select}
    {joins : List Join} (hplain : ∀ t ∈ s.tables, Plain t)
    (h : Select.JoinsRearranged s.joins joins) {p : Prepared} (hp : (e.prepare db s).1 = .ok p) :
    e.executeQuery db (s.withJoins joins) = e.executeQuery db s := by
  rw [prepare] at hp
  rw [executeQuery, executeQuery, prepare, prepare]
  rcases hget : e.snapshot.get db with ⟨_ | schema, snapshot, db'⟩
  · rfl
  · rw [hget] at hp
    obtain ⟨p', hp', halike⟩ := prepareWith_of_joinsRearranged hplain h hp
    dsimp only at hp ⊢
    rw [hp, hp']
    dsimp only
    rw [halike]

/-- **Any equality that gives a key finds the matches of every pair**, in the same order. So
    equalities may come in any order and with their sides exchanged: such joins are accepted
    together, and find the same rows in the same order; queries with such joins are accepted
    together, and have the same outcome. -/
theorem equalities_rearranged :
    (∀ {table : String} {c : JoinCondition} {conditions : List JoinCondition}
      {left right : List Row}, c ∈ conditions → c.KeysBy table → (∀ l ∈ left, l.Lacks table) →
      (∀ r ∈ right, r.Within [table]) →
        probe c conditions left (bucketRows c right) = nestedLoop conditions left right) ∧
    (∀ {schema : Schema} {joined : List String} {conjuncts : List Condition} {join join' : Join}
      {p : JoinPlan} {store : Store} {left : List Row}, join.Rearranged join' →
      (∀ t ∈ join.table :: joined, Plain t) → (∀ l ∈ left, l.Lacks join.table) →
      JoinPlan.ofJoin schema joined conjuncts join = .ok p →
        ∃ p', JoinPlan.ofJoin schema joined conjuncts join' = .ok p' ∧
          joinRows store left p' = joinRows store left p) ∧
    ∀ {e : Engine} {db : Database} {s : Select} {joins : List Join}, (∀ t ∈ s.tables, Plain t) →
      Select.JoinsRearranged s.joins joins →
        ((∃ p, (e.prepare db s).1 = .ok p) ↔ ∃ p, (e.prepare db (s.withJoins joins)).1 = .ok p) ∧
        ((∃ p, (e.prepare db s).1 = .ok p) →
          e.executeQuery db (s.withJoins joins) = e.executeQuery db s) := by
  refine ⟨?_, ?_, ?_⟩
  · intro table c conditions left right hc hkeys hleft hright
    exact probe_eq_nestedLoop hc fun l hl r hr => hkeys.reads (hleft l hl) (hright r hr)
  · intro schema joined conjuncts join join' p store left hjoin hplain hleft hp
    obtain ⟨p', hp', hrejoined⟩ := JoinPlan.ofJoin_rearranged hjoin hp
    obtain ⟨htable, -, -, -, hread⟩ := JoinPlan.ofJoin_eq_ok hp
    have hside : ∀ t, t = join.table ∨ t ∈ joined → Plain t := by
      rintro t (rfl | ht)
      · exact hplain _ List.mem_cons_self
      · exact hplain t (List.mem_cons_of_mem _ ht)
    refine ⟨p', hp', hrejoined.joinRows_eq (htable ▸ hside _ (Or.inl rfl)) ?_ (htable ▸ hleft)⟩
    intro c hc
    exact ⟨hside _ (hread c hc).1, hside _ (hread c hc).2⟩
  · intro e db s joins hplain h
    refine ⟨?_, ?_⟩
    · rw [Engine.prepare, Engine.prepare]
      rcases e.snapshot.get db with ⟨_ | schema, snapshot, db'⟩
      · constructor
        · rintro ⟨_, ⟨⟩⟩
        · rintro ⟨_, ⟨⟩⟩
      · exact Engine.prepareWith_isOk_rearranged hplain h
    · rintro ⟨p, hp⟩
      exact Engine.executeQuery_of_joinsRearranged hplain h hp

/-- Users and orders by the city they were made in, some of them at home. -/
def Store.sampleLocal : Store :=
  (empty.addTable "users" [.object [("name", .text "Ann"), ("city", .text "Rome")],
    .object [("name", .text "Bob"), ("city", .text "Rome")]]).addTable
    "orders" [.object [("user", .text "Bob"), ("city", .text "Rome")],
      .object [("user", .text "Ann"), ("city", .text "Oslo")],
      .object [("user", .text "Ann"), ("city", .text "Rome")]]

def JoinCondition.sampleUser : JoinCondition :=
  ⟨"users", "name", "orders", "user"⟩

def JoinCondition.sampleHome : JoinCondition :=
  ⟨"users", "city", "orders", "city"⟩

/-- The orders of users, looked for by the equalities of a join. -/
def Join.sampleOrders (conditions : List JoinCondition) : Join :=
  ⟨"orders", none, conditions⟩

/-- What each user has ordered at home. -/
def Select.sampleLocal : Select :=
  { columns := [.field (some "users") "name" none, .field (some "orders") "city" none]
    source := "users"
    indexHint := none
    joins := [.sampleOrders [.sampleUser, .sampleHome]]
    filter := none
    groupBy := []
    having := none
    orderBy := []
    limit := none }

def Database.sampleLocal : Database :=
  { Database.empty with store := .sampleLocal }

/-- Orders are found by their user here, and by their city there. -/
theorem equalities_rearranged_sample :
    ∃ left right p p',
      left = (Store.sampleLocal.rowsOf "users").map (Row.qualified "users") ∧
      right = (Store.sampleLocal.rowsOf "orders").map (Row.qualified "orders") ∧
      JoinPlan.ofJoin Store.sampleLocal.schema ["users"] []
        (.sampleOrders [.sampleUser, .sampleHome]) = .ok p ∧
      JoinPlan.ofJoin Store.sampleLocal.schema ["users"] []
        (.sampleOrders [JoinCondition.sampleHome.flipped, .sampleUser]) = .ok p' ∧
      p.probe? = some .sampleUser ∧ p'.probe? = some .sampleHome ∧
      (nestedLoop [.sampleUser, .sampleHome] left right).length = 2 ∧
      probe .sampleUser [.sampleUser, .sampleHome] left (bucketRows .sampleUser right)
        = nestedLoop [.sampleUser, .sampleHome] left right ∧
      joinRows Store.sampleLocal left p' = joinRows Store.sampleLocal left p ∧
      (∃ q, (Engine.sample.prepare .sampleLocal .sampleLocal).1 = .ok q) ∧
      Engine.sample.executeQuery .sampleLocal (Select.sampleLocal.withJoins
          [.sampleOrders [JoinCondition.sampleHome.flipped, .sampleUser]])
        = Engine.sample.executeQuery .sampleLocal .sampleLocal := by
  have hwithin : ∀ table, ∀ row ∈ (Store.sampleLocal.rowsOf table).map (Row.qualified table),
      row.Within [table] := by
    intro table row hrow
    obtain ⟨stored, -, rfl⟩ := List.mem_map.mp hrow
    exact Row.within_qualified table stored
  have hlacks : ∀ row ∈ (Store.sampleLocal.rowsOf "users").map (Row.qualified "users"),
      row.Lacks "orders" := fun row hrow =>
    (hwithin "users" row hrow).lacks (by decide) (by decide) (by decide)
  have hkeys : JoinCondition.sampleUser.KeysBy "orders" :=
    JoinCondition.keysBy_of_isProbeOf (by decide) (by decide) rfl
  have hprobe := equalities_rearranged.1
    (List.mem_cons_self (l := [JoinCondition.sampleHome])) hkeys hlacks (hwithin "orders")
  have hjoin : Join.Rearranged (.sampleOrders [.sampleUser, .sampleHome])
      (.sampleOrders [JoinCondition.sampleHome.flipped, .sampleUser]) :=
    ⟨rfl, rfl, [.sampleHome, .sampleUser], .swap _ _ _,
      .cons (Or.inr rfl) (.cons (Or.inl rfl) .nil)⟩
  have hisOk : (JoinPlan.ofJoin Store.sampleLocal.schema ["users"] []
      (.sampleOrders [.sampleUser, .sampleHome])).isOk = true := by decide +kernel
  obtain ⟨p, hp⟩ := exists_eq_ok_of_isOk hisOk
  obtain ⟨p', hp', hjoined⟩ := equalities_rearranged.2.1 hjoin (by decide) hlacks hp
  have hplans : p.probe? = some .sampleUser ∧ p'.probe? = some .sampleHome := by
    rw [← Except.ok.inj hp, ← Except.ok.inj hp']
    exact ⟨rfl, rfl⟩
  have hprepared : ∃ q, (Engine.sample.prepare .sampleLocal .sampleLocal).1 = .ok q :=
    exists_eq_ok_of_isOk (by decide +kernel)
  have hjoins : Select.JoinsRearranged Select.sampleLocal.joins
      [.sampleOrders [JoinCondition.sampleHome.flipped, .sampleUser]] := .cons hjoin .nil
  exact ⟨_, _, p, p', rfl, rfl, hp, hp', hplans.1, hplans.2, by decide +kernel, hprobe, hjoined,
    hprepared, (equalities_rearranged.2.2 (by decide) hjoins).2 hprepared⟩

end DocQuery
