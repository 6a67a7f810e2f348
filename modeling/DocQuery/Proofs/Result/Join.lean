import DocQuery.Proofs.Plan.Access
import DocQuery.Proofs.Store.Reachable
import DocQuery.Result.Join
import Mathlib.Data.List.Perm.Basic

/-!
# The three ways of joining agree

A row of the joined table matches by key when its value is equal to the one on the left, so
a bucket holds every row that can satisfy the equality. Main statements:

* `granted_joinRows_iff` — a join is refused just when the store neither grants its look-ups nor
  opens its read;
* `agree_foldlM_joinRows` — joins end alike whatever the order of the rows before them is;
* `joinRows_perm` — whichever way is planned, and whether or not the store serves the
  look-ups, the result is that of one pass over the rows which pass the pushed-down filter;
* `probe_eq_nestedLoop` — looking in the bucket finds what trying every pair finds.
-/

namespace DocQuery

variable {c : JoinCondition} {conditions : List JoinCondition} {left left' right right' : List Row}

-- ── Matches of permuted rows ────────────────────────────────────────────────

theorem matchRow_perm (h : right.Perm right') (row : Row) :
    (matchRow conditions right row).Perm (matchRow conditions right' row) :=
  (h.map _).filter _

theorem nestedLoop_perm (hl : left.Perm left') (hr : right.Perm right') :
    (nestedLoop conditions left right).Perm (nestedLoop conditions left' right') :=
  (hl.flatMap_right _).trans (List.Perm.flatMap_left _ fun row _ => matchRow_perm hr row)

/-- What a bucket holds: the rows with the key, in their order. -/
theorem get?_bucketRows (c : JoinCondition) (rows : List Row) (key : String) :
    ((bucketRows c rows).get? key).getD []
      = rows.filter fun row => (c.rightValue? row).map Value.key == some key :=
  Keyed.getD_get?_collect _ rows key

/-- Only the buckets of the left rows' values matter, and not their order. -/
theorem probe_perm_of_buckets {b b' : Keyed (List Row)} (hl : left.Perm left')
    (hb : ∀ row ∈ left, ∀ v, c.leftValue? row = some v →
      ((b.get? v.key).getD []).Perm ((b'.get? v.key).getD [])) :
    (probe c conditions left b).Perm (probe c conditions left' b') := by
  refine List.Perm.trans ?_ (hl.flatMap_right _)
  refine List.Perm.flatMap_left _ ?_
  intro row hrow
  cases hv : c.leftValue? row with
  | none => exact List.Perm.refl _
  | some v => exact matchRow_perm (hb row hrow v hv) row

/-- The matches of two lists of rows, by key if an equality gives one. -/
def JoinPlan.matchesOf (p : JoinPlan) (left right : List Row) : List Row :=
  match p.probe? with
  | some c => probe c p.conditions left (bucketRows c right)
  | none => nestedLoop p.conditions left right

/-- The order of either side changes the order of matches only. -/
theorem JoinPlan.matchesOf_perm {p : JoinPlan} (hl : left.Perm left') (hr : right.Perm right') :
    (p.matchesOf left right).Perm (p.matchesOf left' right') := by
  rw [matchesOf, matchesOf]
  split
  · refine probe_perm_of_buckets hl ?_
    intro row _ v _
    rw [get?_bucketRows, get?_bucketRows]
    exact hr.filter _
  · exact nestedLoop_perm hl hr

/-- A match is a row merged with a candidate. -/
theorem mem_matchRow {candidates : List Row} {l row : Row}
    (h : row ∈ matchRow conditions candidates l) : ∃ r ∈ candidates, row = l.merge r := by
  obtain ⟨r, hr, heq⟩ := List.mem_map.mp (List.mem_of_mem_filter h)
  exact ⟨r, hr, heq.symm⟩

/-- What a probe finds is a left row merged with a right one. -/
theorem mem_probe {row : Row} (h : row ∈ probe c conditions left (bucketRows c right)) :
    ∃ l ∈ left, ∃ r ∈ right, row = l.merge r := by
  obtain ⟨l, hl, h⟩ := List.mem_flatMap.mp h
  refine ⟨l, hl, ?_⟩
  cases hv : c.leftValue? l with
  | none =>
      rw [hv] at h
      exact nomatch h
  | some v =>
      rw [hv] at h
      obtain ⟨r, hr, heq⟩ := mem_matchRow h
      rw [get?_bucketRows] at hr
      exact ⟨r, List.mem_of_mem_filter hr, heq⟩

/-- A match merges a row of either side. -/
theorem JoinPlan.mem_matchesOf {p : JoinPlan} {row : Row} (h : row ∈ p.matchesOf left right) :
    ∃ l ∈ left, ∃ r ∈ right, row = l.merge r := by
  rw [matchesOf] at h
  split at h
  · exact mem_probe h
  · obtain ⟨l, hl, h⟩ := List.mem_flatMap.mp h
    obtain ⟨r, hr, heq⟩ := mem_matchRow h
    exact ⟨l, hl, r, hr, heq⟩

-- ── Values that are joined ──────────────────────────────────────────────────

/-- The left value is what stands under the qualified name, unless it is null. -/
theorem leftValue?_eq_some {row : Row} {v : Value} :
    c.leftValue? row = some v ↔
      row.get? (qualify c.leftTable c.leftField) = some v ∧ v.isNull = false := by
  rw [JoinCondition.leftValue?, Option.filter_eq_some_iff, Bool.not_eq_true']

/-- The right value is what stands under the qualified name, unless it is null. -/
theorem rightValue?_eq_some {row : Row} {v : Value} :
    c.rightValue? row = some v ↔
      row.get? (qualify c.rightTable c.rightField) = some v ∧ v.isNull = false := by
  rw [JoinCondition.rightValue?, Option.filter_eq_some_iff, Bool.not_eq_true']

/-- The distinct keys of left rows: values of theirs, one for each key. -/
theorem mem_distinctKeys {u : Value} (h : u ∈ distinctKeys c left) :
    ∃ row ∈ left, c.leftValue? row = some u := by
  have hmem := Keyed.mem_of_mem_firsts h
  exact List.mem_filterMap.mp hmem

theorem exists_mem_distinctKeys {row : Row} {v : Value} (hrow : row ∈ left)
    (hv : c.leftValue? row = some v) : ∃ u ∈ distinctKeys c left, u.key = v.key :=
  Keyed.exists_mem_firsts (List.mem_filterMap.mpr ⟨row, hrow, hv⟩)

/-- If one item of several gives anything, all of them give what it gives. -/
theorem flatMap_eq_of_unique {α β : Type} {items : List α} {x : α} {f : α → List β}
    (hx : x ∈ items) (hnodup : items.Nodup) (hf : ∀ y ∈ items, y ≠ x → f y = []) :
    items.flatMap f = f x := by
  obtain ⟨before, after, rfl⟩ := List.append_of_mem hx
  rw [List.nodup_append, List.nodup_cons] at hnodup
  obtain ⟨-, ⟨hafter, -⟩, hne⟩ := hnodup
  have hb : before.flatMap f = [] := by
    refine List.flatMap_eq_nil_iff.mpr ?_
    intro y hy
    exact hf y (List.mem_append_left _ hy) (hne y hy x List.mem_cons_self)
  have ha : after.flatMap f = [] := by
    refine List.flatMap_eq_nil_iff.mpr ?_
    intro y hy
    refine hf y (List.mem_append_right _ (List.mem_cons_of_mem _ hy)) ?_
    rintro rfl
    exact hafter hy
  rw [List.flatMap_append, List.flatMap_cons, hb, ha, List.append_nil, List.nil_append]

-- ── Reading a table once ────────────────────────────────────────────────────

section Strategies

variable {store : Store} {join : JoinPlan} {t : StoredTable} {conjuncts : List Condition}

/-- The rows of a table that meet conditions, under names qualified by it. -/
def selectQualified (table : String) (conjuncts : List Condition) (t : StoredTable) : List Row :=
  (t.rows.filter fun row => conjuncts.all (·.toFilter.holds row)).map (Row.qualified table)

/-- What a join that reads its table once gives are matches of the rows that it reads. -/
theorem result_scanJoin (store : Store) (join : JoinPlan) (left : List Row) :
    (scanJoin store join left).result
      = (store.fetch join.table join.access none none).result >>= fun rows =>
          .ok (join.matchesOf left (rows.map (Row.qualified join.table))) := by
  rw [scanJoin, Reading.result_bind]
  refine congrArg _ (funext fun rows => ?_)
  rw [JoinPlan.matchesOf]
  cases join.probe? <;> rfl

/-- A join that reads its table once needs a read that the store opens. -/
theorem granted_scanJoin_iff :
    (scanJoin store join left).result.Granted ↔ store.Opens join.table join.access := by
  refine Iff.trans ?_ (Store.granted_fetch_iff :
    (store.fetch join.table join.access none none).result.Granted ↔ _)
  rw [result_scanJoin]
  match (store.fetch join.table join.access none none).result with
  | .ok rows => exact iff_of_true (Outcome.granted_ok _) (Outcome.granted_ok _)
  | .error .panicked => exact iff_of_true Outcome.granted_panicked Outcome.granted_panicked
  | .error (.refused e) =>
      exact iff_of_false (Outcome.not_granted_refused e) (Outcome.not_granted_refused e)

/-- What it returns are the matches of the rows that meet the conditions of its read. -/
theorem scanJoin_perm (ht : store.tables.get? join.table = some t)
    (hselects : join.access.Selects conjuncts) {out : List Row}
    (h : (scanJoin store join left).result = .ok out) :
    out.Perm (join.matchesOf left (selectQualified join.table conjuncts t)) := by
  rw [result_scanJoin] at h
  obtain ⟨rows, hfetch, h⟩ := bind_eq_ok_iff.mp h
  rw [← Except.ok.inj h]
  exact JoinPlan.matchesOf_perm (List.Perm.refl _) ((hselects.fetch_perm ht hfetch).map _)

/-- Of rows in any other order the matches are the same. -/
theorem agree_scanJoin (hperm : left.Perm left') :
    Agree List.Perm (scanJoin store join left).result (scanJoin store join left').result := by
  rw [result_scanJoin, result_scanJoin]
  cases (store.fetch join.table join.access none none).result with
  | error e => exact .error e
  | ok rows => exact .ok (JoinPlan.matchesOf_perm hperm (List.Perm.refl _))

-- ── Look-ups ────────────────────────────────────────────────────────────────

/-- The index by which keys are looked up is there, and has the field. -/
def JoinCondition.ServedBy (c : JoinCondition) (store : Store) (table index : String) : Prop :=
  ∃ t fields, store.tables.get? table = some t ∧ t.indexes.get? index = some fields ∧
    c.rightField ∈ fields

/-- Look-ups give what is found for each distinct key, if no sort panics. -/
theorem result_lookupByKey (ht : store.tables.get? join.table = some t) {index : String}
    {fields : List String} (hindex : t.indexes.get? index = some fields)
    (hfield : c.rightField ∈ fields) {found : Value → List Row}
    (hfound : ∀ u ∈ distinctKeys c left,
      (Store.keyScan join.table t fields c.rightField join.pushdown u).rows = some (found u)) :
    (lookupByKey store join c index left).result
      = .ok (bucketRows c (((distinctKeys c left).flatMap found).map
          (Row.qualified join.table))) := by
  have hall : (Reading.all ((distinctKeys c left).map
      (store.fetchKey join.table index c.rightField join.pushdown))).result
        = .ok ((distinctKeys c left).map found) := by
    rw [Reading.result_all_eq_ok_iff, List.forall₂_map_right_iff, List.forall₂_same]
    intro u hu
    rw [Store.fetchKey_eq ht hindex hfield, hfound u hu]
    rfl
  rw [lookupByKey, Reading.result_bind_ok hall, List.flatMap_def]
  rfl

/-- Look-ups have a result just when the rows found for each distinct key can be sorted. -/
theorem lookupByKey_isOk_iff (ht : store.tables.get? join.table = some t) {index : String}
    {fields : List String} (hindex : t.indexes.get? index = some fields)
    (hfield : c.rightField ∈ fields) :
    (∃ buckets, (lookupByKey store join c index left).result = .ok buckets) ↔
      ∀ u ∈ distinctKeys c left,
        (Store.keyScan join.table t fields c.rightField join.pushdown u).rows.isSome = true := by
  constructor
  · rintro ⟨buckets, h⟩ u hu
    obtain ⟨lists, hall, -⟩ := Reading.result_bind_eq_ok h
    obtain ⟨rows, hrows⟩ := Reading.exists_ok_of_all hall u hu
    rw [Store.fetchKey_eq ht hindex hfield, Outcome.ofSort_eq_ok_iff] at hrows
    rw [hrows]
    rfl
  · intro h
    exact ⟨_, result_lookupByKey ht hindex hfield fun u hu =>
      (Option.getD_of_ne_none (Option.isSome_iff_ne_none.mp (h u hu)) []).symm⟩

/-- Where keys tell values apart, look-ups fill the buckets of the left rows' values as a
    pass over the whole table does. -/
theorem lookup_buckets_perm {fields : List String} {found : Value → List Row}
    (hfound : ∀ u ∈ distinctKeys c left,
      (Store.keyScan join.table t fields c.rightField join.pushdown u).rows = some (found u))
    (hpush : join.pushdown = Condition.toFilter? conjuncts)
    (htable : c.rightTable = join.table) (hkeys : ∀ row ∈ t.rows, row.Keyable)
    (hleft : ∀ row ∈ left, row.Keyable) {row : Row} {v : Value} (hrow : row ∈ left)
    (hv : c.leftValue? row = some v) :
    (((bucketRows c (((distinctKeys c left).flatMap found).map
        (Row.qualified join.table))).get? v.key).getD []).Perm
      (((bucketRows c (selectQualified join.table conjuncts t)).get? v.key).getD []) := by
  rw [get?_bucketRows, get?_bucketRows, selectQualified, List.filter_map, List.filter_map,
    List.filter_flatMap]
  refine List.Perm.map _ ?_
  have hvalue : ∀ (r : Row) (w : Value), c.rightValue? (r.qualified join.table) = some w ↔
      r.get? c.rightField = some w ∧ w.isNull = false := by
    intro r w
    rw [rightValue?_eq_some, htable, Row.get?_qualified]
  have hkeyed : ∀ u ∈ distinctKeys c left, u.Keyable ∧ u.isNull = false := by
    intro u hu
    obtain ⟨r, hr, hru⟩ := mem_distinctKeys hu
    obtain ⟨hget, hnull⟩ := leftValue?_eq_some.mp hru
    exact ⟨hleft r hr _ _ hget, hnull⟩
  -- a row in the bucket has a value that is equal to each distinct key of that text
  have hequal : ∀ u ∈ distinctKeys c left, ∀ r ∈ t.rows,
      ((c.rightValue? (r.qualified join.table)).map Value.key == some v.key) = true →
      (((r.value c.rightField).equal u = true) ↔ u.key = v.key) := by
    intro u hu r hr hbucket
    obtain ⟨w, hw, hkey⟩ := Option.map_eq_some_iff.mp (beq_iff_eq.mp hbucket)
    obtain ⟨hget, hnull⟩ := (hvalue r w).mp hw
    have hread : r.value c.rightField = w := by
      rw [Row.value, hget]
      rfl
    obtain ⟨huk, hun⟩ := hkeyed u hu
    rw [hread, ← Value.key_eq_iff_of_keyable (hkeys r hr _ _ hget) huk hnull hun, hkey]
    exact eq_comm
  have hadmits : ∀ u r, (Store.keyScan join.table t fields c.rightField join.pushdown u).admits r
      = ((r.value c.rightField).equal u && conjuncts.all (·.toFilter.holds r)) := by
    intro u r
    rw [Store.admits_keyScan, hpush, Condition.all_holds_toFilter?]
  obtain ⟨u, hu, hukey⟩ := exists_mem_distinctKeys hrow hv
  have hnodup : (distinctKeys c left).Nodup := (Keyed.nodup_keys_firsts _ _).of_map _
  rw [flatMap_eq_of_unique hu hnodup]
  · refine ((Scan.rows_perm (hfound u hu)).filter _).trans (List.Perm.of_eq ?_)
    rw [List.filter_filter, List.filter_filter]
    refine List.filter_congr ?_
    intro r hr
    rw [hadmits]
    cases hbucket : ((c.rightValue? (r.qualified join.table)).map Value.key == some v.key) with
    | false => simp [Function.comp_apply, hbucket]
    | true =>
        have hr_equal := (hequal u hu r hr hbucket).mpr hukey
        simp [Function.comp_apply, hbucket, hr_equal]
  · intro u' hu' hne
    refine List.filter_eq_nil_iff.mpr ?_
    intro r hr hbucket
    have hmem := (Scan.rows_perm (hfound u' hu')).mem_iff.mp hr
    obtain ⟨hrt, hadm⟩ := List.mem_filter.mp hmem
    rw [hadmits, Bool.and_eq_true] at hadm
    have hkey := (hequal u' hu' r hrt hbucket).mp hadm.1
    refine hne ?_
    exact List.inj_on_of_nodup_map (Keyed.nodup_keys_firsts _ _) hu' hu (hkey.trans hukey.symm)

/-- Without a key there is no match. -/
theorem probe_eq_nil (hnone : ∀ row ∈ left, c.leftValue? row = none)
    (buckets : Keyed (List Row)) : probe c conditions left buckets = [] := by
  refine List.flatMap_eq_nil_iff.mpr ?_
  intro row hrow
  rw [hnone row hrow]

/-- There is no key if no left row has a value. -/
theorem distinctKeys_eq_nil_iff :
    distinctKeys c left = [] ↔ ∀ row ∈ left, c.leftValue? row = none := by
  constructor
  · intro h row hrow
    refine Option.eq_none_iff_forall_not_mem.mpr fun v hv => ?_
    obtain ⟨u, hu, -⟩ := exists_mem_distinctKeys hrow hv
    rw [h] at hu
    exact nomatch hu
  · intro h
    refine List.eq_nil_iff_forall_not_mem.mpr fun u hu => ?_
    obtain ⟨row, hrow, hv⟩ := mem_distinctKeys hu
    rw [h row hrow] at hv
    exact nomatch hv

/-- Look-ups are granted where the index has the field, and where there is no key to look up. -/
theorem granted_lookupByKey_iff {index : String} :
    (lookupByKey store join c index left).result.Granted ↔
      (∀ row ∈ left, c.leftValue? row = none) ∨ c.ServedBy store join.table index := by
  rw [← distinctKeys_eq_nil_iff]
  constructor
  · intro h
    by_contra hneither
    obtain ⟨hkeys, hserves⟩ := not_or.mp hneither
    obtain ⟨e, he⟩ := Reading.exists_refused_all hkeys
      fun u _ => Store.fetchKey_refused hserves join.pushdown u
    exact h e (Reading.result_bind_error he _)
  · rintro (hkeys | ⟨t, fields, ht, hget, hfield⟩)
    · rw [lookupByKey, hkeys]
      exact Outcome.granted_ok _
    · refine Reading.granted_bind (Reading.granted_all fun u _ => ?_)
        fun _ _ => Outcome.granted_ok _
      exact Store.granted_fetchKey_iff.mpr ⟨t, fields, ht, hget, hfield⟩

/-- Rows in any other order have the same keys, so their look-ups have results with theirs. -/
theorem exists_lookupByKey_iff {index : String} (hserves : c.ServedBy store join.table index)
    (hleft : ∀ row ∈ left, row.Keyable) (hperm : left.Perm left') :
    (∃ buckets, (lookupByKey store join c index left).result = .ok buckets) ↔
      ∃ buckets, (lookupByKey store join c index left').result = .ok buckets := by
  have hone : ∀ {left left' : List Row}, (∀ row ∈ left, row.Keyable) → left.Perm left' →
      (∃ buckets, (lookupByKey store join c index left).result = .ok buckets) →
      ∃ buckets, (lookupByKey store join c index left').result = .ok buckets := by
    intro left left' hleft hperm hbuckets
    obtain ⟨t, fields, ht, hget, hfield⟩ := hserves
    rw [lookupByKey_isOk_iff ht hget hfield] at hbuckets ⊢
    intro u hu
    obtain ⟨row, hrow, hv⟩ := mem_distinctKeys hu
    obtain ⟨u', hu', hkey⟩ := exists_mem_distinctKeys (hperm.mem_iff.mpr hrow) hv
    obtain ⟨row', hrow', hv'⟩ := mem_distinctKeys hu'
    obtain ⟨hget, hnull⟩ := leftValue?_eq_some.mp hv
    obtain ⟨hget', hnull'⟩ := leftValue?_eq_some.mp hv'
    have hequal := (Value.key_eq_iff_of_keyable (hleft row' hrow' _ _ hget')
      (hleft row (hperm.mem_iff.mpr hrow) _ _ hget) hnull' hnull).mp hkey
    rw [← Store.rows_keyScan_congr hequal]
    exact hbuckets u' hu'
  exact ⟨hone hleft hperm, hone (fun row hrow => hleft row (hperm.mem_iff.mpr hrow)) hperm.symm⟩

-- ── Any strategy ────────────────────────────────────────────────────────────

/-- The key by which a table is joined is a field of that table. -/
theorem JoinPlan.rightTable_of_probe? (hprobe : join.probe? = some c) :
    c.rightTable = join.table := by
  have hfind := List.find?_some hprobe
  rw [JoinCondition.isProbeOf, Bool.and_eq_true] at hfind
  exact beq_iff_eq.mp hfind.1

/-- The table is matched by look-ups, and the store grants those for rows from before. -/
def JoinPlan.LooksUp (join : JoinPlan) (store : Store) (left : List Row) : Prop :=
  ∃ index c, join.strategy = .indexedLookup index ∧ join.probe? = some c ∧
    ((∀ row ∈ left, c.leftValue? row = none) ∨ c.ServedBy store join.table index)

/-- Look-ups that are granted give the join its buckets, unless a sort panics. -/
theorem joinRows_eq_lookupByKey {index : String}
    (hstrategy : join.strategy = .indexedLookup index) (hprobe : join.probe? = some c)
    (hgranted : (lookupByKey store join c index left).result.Granted) :
    (joinRows store left join).result
      = (lookupByKey store join c index left).result >>= fun buckets =>
          .ok (probe c join.conditions left buckets) := by
  rw [joinRows, hstrategy, hprobe]
  dsimp only
  rcases Outcome.granted_iff.mp hgranted with h | ⟨buckets, h⟩ <;> rw [h] <;> rfl

/-- Where they are not planned or not granted the table is read once. -/
theorem joinRows_eq_scanJoin (h : ¬ join.LooksUp store left) :
    (joinRows store left join).result = (scanJoin store join left).result := by
  rw [joinRows]
  split
  · rename_i index c hstrategy hprobe
    have hrefused : ¬ (lookupByKey store join c index left).result.Granted := fun hgranted =>
      h ⟨index, c, hstrategy, hprobe, granted_lookupByKey_iff.mp hgranted⟩
    obtain ⟨e, he⟩ := Outcome.exists_refused hrefused
    dsimp only
    rw [he]
    rfl
  · rfl

/-- A join is granted if its look-ups are or its read can be opened, and otherwise refused. -/
theorem granted_joinRows_iff : (joinRows store left join).result.Granted ↔
    join.LooksUp store left ∨ store.Opens join.table join.access := by
  by_cases hlooks : join.LooksUp store left
  · refine iff_of_true ?_ (Or.inl hlooks)
    obtain ⟨index, c, hstrategy, hprobe, hserved⟩ := hlooks
    have hgranted := granted_lookupByKey_iff.mpr hserved
    rw [joinRows_eq_lookupByKey hstrategy hprobe hgranted]
    exact hgranted.bind fun _ _ => Outcome.granted_ok _
  · rw [joinRows_eq_scanJoin hlooks, granted_scanJoin_iff]
    exact ⟨Or.inr, fun h => h.resolve_left hlooks⟩

/-- Whichever way it went, the result of a join is that of one pass over the rows that meet
    the conditions of its read. -/
theorem joinRows_perm_of_eq_ok
    (ht : ∀ t', store.tables.get? join.table = some t' → t' = t)
    (hselects : join.access.Selects conjuncts)
    (hpush : join.pushdown = Condition.toFilter? conjuncts)
    (hkeys : ∀ row ∈ t.rows, row.Keyable) (hleft : ∀ row ∈ left, row.Keyable)
    {out : List Row} (h : (joinRows store left join).result = .ok out) :
    out.Perm (join.matchesOf left (selectQualified join.table conjuncts t)) := by
  by_cases hlooks : join.LooksUp store left
  · obtain ⟨index, c, hstrategy, hprobe, hserved⟩ := hlooks
    rw [joinRows_eq_lookupByKey hstrategy hprobe (granted_lookupByKey_iff.mpr hserved)] at h
    obtain ⟨buckets, hbuckets, h⟩ := bind_eq_ok_iff.mp h
    rw [← Except.ok.inj h, JoinPlan.matchesOf, hprobe]
    dsimp only
    rcases hserved with hnone | ⟨t', fields, ht', hget, hfield⟩
    · rw [probe_eq_nil hnone, probe_eq_nil hnone]
    · obtain rfl := ht t' ht'
      have hsome := (lookupByKey_isOk_iff ht' hget hfield).mp ⟨buckets, hbuckets⟩
      have hfound : ∀ u ∈ distinctKeys c left,
          (Store.keyScan join.table t' fields c.rightField join.pushdown u).rows
            = some ((Store.keyScan join.table t' fields c.rightField join.pushdown u).rows.getD
                []) := fun u hu =>
        (Option.getD_of_ne_none (Option.isSome_iff_ne_none.mp (hsome u hu)) []).symm
      rw [result_lookupByKey ht' hget hfield hfound] at hbuckets
      rw [← Except.ok.inj hbuckets]
      exact probe_perm_of_buckets (List.Perm.refl _) fun row hrow v hv => lookup_buckets_perm
        hfound hpush (JoinPlan.rightTable_of_probe? hprobe) hkeys hleft hrow hv
  · rw [joinRows_eq_scanJoin hlooks] at h
    have hopens := granted_scanJoin_iff.mp (h ▸ Outcome.granted_ok out)
    obtain ⟨t', hget⟩ := Store.exists_of_opens hopens
    obtain rfl := ht t' hget
    exact scanJoin_perm hget hselects h

/-- Whichever way is planned, a join is granted, and its result is that of one pass over the rows
    that pass the pushed-down filter. -/
theorem joinRows_perm (ht : store.tables.get? join.table = some t)
    (hserves : join.access.Serves t conjuncts)
    (hpush : join.pushdown = Condition.toFilter? conjuncts)
    (hkeys : ∀ row ∈ t.rows, row.Keyable) (hleft : ∀ row ∈ left, row.Keyable) :
    (joinRows store left join).result.Granted ∧
      ∀ out, (joinRows store left join).result = .ok out →
        out.Perm (join.matchesOf left (selectQualified join.table conjuncts t)) := by
  have hsame : ∀ t', store.tables.get? join.table = some t' → t' = t := fun t' ht' =>
    Option.some.inj (ht'.symm.trans ht)
  exact ⟨granted_joinRows_iff.mpr (Or.inr (hserves.opens ht)), fun out hout =>
    joinRows_perm_of_eq_ok hsame hserves.selects hpush hkeys hleft hout⟩

-- ── Joining one table after the other ───────────────────────────────────────

/-- The read of a joined table selects by the conditions that are pushed down to it. A planner
    makes such plans by any schema (`JoinPlan.selects_accessFor`). -/
def JoinPlan.SelectsPushdown (p : JoinPlan) : Prop :=
  ∃ conjuncts, p.access.Selects conjuncts ∧ p.pushdown = Condition.toFilter? conjuncts

/-- Whether look-ups are answered does not depend on the order of the rows before. -/
theorem JoinPlan.LooksUp.perm {p : JoinPlan} (h : p.LooksUp store left')
    (hperm : left.Perm left') : p.LooksUp store left := by
  obtain ⟨index, c, hstrategy, hprobe, hanswered⟩ := h
  refine ⟨index, c, hstrategy, hprobe, hanswered.imp_left ?_⟩
  intro hnone row hrow
  exact hnone row (hperm.mem_iff.mp hrow)

/-- What a join returns are matches of rows of its table, the same for all plans that select by
    the same conditions. -/
theorem exists_right (table : String) (conjuncts : List Condition)
    (hkeys : ∀ table t, store.tables.get? table = some t → ∀ row ∈ t.rows, row.Keyable) :
    ∃ right : List Row, (∀ row ∈ right, row.Keyable) ∧ ∀ (p : JoinPlan) (left out : List Row),
      p.table = table → p.access.Selects conjuncts →
      p.pushdown = Condition.toFilter? conjuncts → (∀ row ∈ left, row.Keyable) →
      (joinRows store left p).result = .ok out → out.Perm (p.matchesOf left right) := by
  have hexists : ∃ t : StoredTable, (∀ t', store.tables.get? table = some t' → t' = t) ∧
      ∀ row ∈ t.rows, row.Keyable := by
    cases ht : store.tables.get? table with
    | none => exact ⟨.empty, fun _ h => (nomatch h), fun _ h => (nomatch h)⟩
    | some t => exact ⟨t, fun t' h => (Option.some.inj h).symm, hkeys _ t ht⟩
  obtain ⟨t, ht, hrows⟩ := hexists
  refine ⟨selectQualified table conjuncts t, ?_, ?_⟩
  · intro row hrow
    obtain ⟨stored, hstored, rfl⟩ := List.mem_map.mp hrow
    exact (hrows stored (List.mem_of_mem_filter hstored)).qualified _
  · rintro p left out rfl hselects hpush hleft hout
    exact joinRows_perm_of_eq_ok ht hselects hpush hrows hleft hout

/-- Every row of a join merges a row of its table into a row from before. -/
theorem JoinPlan.SelectsPushdown.mem_joinRows {p : JoinPlan} (h : p.SelectsPushdown)
    (hkeys : ∀ table t, store.tables.get? table = some t → ∀ row ∈ t.rows, row.Keyable)
    (hleft : ∀ row ∈ left, row.Keyable) {out : List Row}
    (hout : (joinRows store left p).result = .ok out) {row : Row} (hrow : row ∈ out) :
    ∃ l ∈ left, ∃ t, store.tables.get? p.table = some t ∧ ∃ r ∈ t.rows,
      row = l.merge (r.qualified p.table) := by
  obtain ⟨conjuncts, hselects, hpush⟩ := h
  cases ht : store.tables.get? p.table with
  | none =>
      have hperm := joinRows_perm_of_eq_ok (t := .empty) (fun t' ht' => nomatch ht.symm.trans ht')
        hselects hpush (fun _ hr => nomatch hr) hleft hout
      obtain ⟨l, -, r, hr, -⟩ := mem_matchesOf (hperm.mem_iff.mp hrow)
      exact nomatch hr
  | some t =>
      have hperm := joinRows_perm_of_eq_ok (fun t' ht' => Option.some.inj (ht'.symm.trans ht))
        hselects hpush (hkeys _ t ht) hleft hout
      obtain ⟨l, hl, r', hr', rfl⟩ := mem_matchesOf (hperm.mem_iff.mp hrow)
      obtain ⟨r, hr, rfl⟩ := List.mem_map.mp hr'
      exact ⟨l, hl, t, rfl, r, List.mem_of_mem_filter hr, rfl⟩

/-- Rows that were matched are as good as keys as both sides were. -/
theorem JoinPlan.keyable_matchesOf {p : JoinPlan} (hleft : ∀ row ∈ left, row.Keyable)
    (hright : ∀ row ∈ right, row.Keyable) : ∀ row ∈ p.matchesOf left right, row.Keyable := by
  intro row hrow
  obtain ⟨l, hl, r, hr, rfl⟩ := mem_matchesOf hrow
  exact (hleft l hl).merge (hright r hr)

/-- A join ends alike for the rows before it in any other order: in the same failure, or with the
    same result but for the order. -/
theorem JoinPlan.SelectsPushdown.agree_joinRows {p : JoinPlan} (h : p.SelectsPushdown)
    (hkeys : ∀ table t, store.tables.get? table = some t → ∀ row ∈ t.rows, row.Keyable)
    (hleft : ∀ row ∈ left, row.Keyable) (hperm : left.Perm left') :
    Agree (fun out out' => out.Perm out' ∧ ∀ row ∈ out, row.Keyable)
      (joinRows store left p).result (joinRows store left' p).result := by
  obtain ⟨conjuncts, hselects, hpush⟩ := h
  obtain ⟨right, hright, hmatches⟩ := exists_right p.table conjuncts hkeys
  have hleft' : ∀ row ∈ left', row.Keyable := fun row hrow =>
    hleft row (hperm.mem_iff.mpr hrow)
  have hresults : ∀ out out', (joinRows store left p).result = .ok out →
      (joinRows store left' p).result = .ok out' →
      out.Perm out' ∧ ∀ row ∈ out, row.Keyable := by
    intro out out' hout hout'
    have hmatched := hmatches p left out rfl hselects hpush hleft hout
    have hmatched' := hmatches p left' out' rfl hselects hpush hleft' hout'
    refine ⟨(hmatched.trans (matchesOf_perm hperm (.refl _))).trans hmatched'.symm, ?_⟩
    intro row hrow
    exact keyable_matchesOf hleft hright row (hmatched.mem_iff.mp hrow)
  by_cases hlooks : p.LooksUp store left
  · have hlooks' := hlooks.perm hperm.symm
    refine (granted_joinRows_iff.mpr (.inl hlooks)).agree (granted_joinRows_iff.mpr (.inl hlooks'))
      ?_ hresults
    obtain ⟨index, c, hstrategy, hprobe, hserved⟩ := hlooks
    have hserved' : (∀ row ∈ left', c.leftValue? row = none) ∨ c.ServedBy store p.table index :=
      hserved.imp_left fun hnone row hrow => hnone row (hperm.mem_iff.mpr hrow)
    have hgranted := granted_lookupByKey_iff.mpr hserved
    have hgranted' := granted_lookupByKey_iff.mpr hserved'
    rw [joinRows_eq_lookupByKey hstrategy hprobe hgranted,
      joinRows_eq_lookupByKey hstrategy hprobe hgranted']
    have hmap : ∀ {x : Outcome QueryError (Keyed (List Row))} {f : Keyed (List Row) → List Row},
        (∃ out, (x >>= fun b => .ok (f b)) = .ok out) ↔ ∃ b, x = .ok b := by
      intro x f
      cases x with
      | error e => exact ⟨fun ⟨_, h⟩ => (nomatch h), fun ⟨_, h⟩ => (nomatch h)⟩
      | ok b => exact ⟨fun _ => ⟨b, rfl⟩, fun _ => ⟨f b, rfl⟩⟩
    rw [hmap, hmap]
    rcases hserved with hnone | hserves
    · rw [lookupByKey, lookupByKey, distinctKeys_eq_nil_iff.mpr hnone, distinctKeys_eq_nil_iff.mpr
        fun row hrow => hnone row (hperm.mem_iff.mpr hrow)]
    · exact exists_lookupByKey_iff hserves hleft hperm
  · have hlooks' : ¬ p.LooksUp store left' := fun hl => hlooks (hl.perm hperm)
    have hscan : Agree List.Perm (scanJoin store p left).result (scanJoin store p left').result :=
      agree_scanJoin hperm
    rw [← joinRows_eq_scanJoin hlooks, ← joinRows_eq_scanJoin hlooks'] at hscan
    exact hscan.attach.mono fun out out' ⟨hout, hout', _⟩ => hresults out out' hout hout'

/-- So does joining one table after the other. -/
theorem agree_foldlM_joinRows {plans : List JoinPlan}
    (hplans : ∀ p ∈ plans, p.SelectsPushdown)
    (hkeys : ∀ table t, store.tables.get? table = some t → ∀ row ∈ t.rows, row.Keyable)
    (hleft : ∀ row ∈ left, row.Keyable) (hperm : left.Perm left') :
    Agree List.Perm (plans.foldlM (joinRows store) left).result
      (plans.foldlM (joinRows store) left').result := by
  induction plans generalizing left left' with
  | nil => exact .ok hperm
  | cons p plans ih =>
      rw [List.foldlM_cons, List.foldlM_cons, Reading.result_bind, Reading.result_bind]
      refine ((hplans p List.mem_cons_self).agree_joinRows hkeys hleft hperm).bind ?_
      rintro mid mid' ⟨hmids, hkeyable⟩
      exact ih (fun q hq => hplans q (List.mem_cons_of_mem _ hq)) hkeyable hmids

/-- Tables whose reads can be opened are joined, whatever the rows before them, unless a sort
    panics. -/
theorem granted_foldlM_joinRows {plans : List JoinPlan}
    (h : ∀ p ∈ plans, store.Opens p.table p.access) (left : List Row) :
    (plans.foldlM (joinRows store) left).result.Granted := by
  induction plans generalizing left with
  | nil => exact Outcome.granted_ok left
  | cons p plans ih =>
      rw [List.foldlM_cons]
      refine Reading.granted_bind (granted_joinRows_iff.mpr (Or.inr (h p List.mem_cons_self))) ?_
      exact fun out _ => ih (fun q hq => h q (List.mem_cons_of_mem _ hq)) out

/-- What the plan of a join is good for: it reads a table of the store for conditions, and has
    them as its pushed-down filter. -/
def JoinPlan.IsServed (store : Store) (p : JoinPlan) : Prop :=
  ∃ t conjuncts, store.tables.get? p.table = some t ∧ p.access.Serves t conjuncts ∧
    p.pushdown = Condition.toFilter? conjuncts

theorem JoinPlan.IsServed.opens {p : JoinPlan} (h : p.IsServed store) :
    store.Opens p.table p.access := by
  obtain ⟨t, conjuncts, ht, hserves, -⟩ := h
  exact hserves.opens ht

theorem JoinPlan.IsServed.selectsPushdown {p : JoinPlan} (h : p.IsServed store) :
    p.SelectsPushdown := by
  obtain ⟨t, conjuncts, -, hserves, hpush⟩ := h
  exact ⟨conjuncts, hserves.selects, hpush⟩

end Strategies

-- ── Buckets and pairs ───────────────────────────────────────────────────────

/-- A joined row keeps the left side of the equality from before, and gets its right side
    from the joined table. -/
structure Reads (c : JoinCondition) (l r : Row) : Prop where
  left : (l.merge r).get? (qualify c.leftTable c.leftField)
    = l.get? (qualify c.leftTable c.leftField)
  right : (l.merge r).get? (qualify c.rightTable c.rightField)
    = r.get? (qualify c.rightTable c.rightField)

/-- Rows that satisfy the equality have values of one key. -/
theorem key_eq_of_holds {l r : Row} (hreads : Reads c l r) (h : c.holds (l.merge r) = true) :
    ∃ v, c.leftValue? l = some v ∧ (c.rightValue? r).map Value.key = some v.key := by
  rw [JoinCondition.holds, hreads.left, hreads.right] at h
  split at h
  · rename_i v w hv hw
    rw [Bool.and_eq_true, Bool.not_eq_true'] at h
    obtain ⟨hnull, hequal⟩ := h
    refine ⟨v, leftValue?_eq_some.mpr ⟨hv, hnull⟩, ?_⟩
    have hw' : c.rightValue? r = some w := by
      refine rightValue?_eq_some.mpr ⟨hw, ?_⟩
      rw [← Value.isNull_eq_of_equal hequal]
      exact hnull
    rw [hw', Option.map_some, Value.key_eq_of_equal hequal]
  · exact nomatch h

/-- Candidates that satisfy no equality can be left out. -/
theorem matchRow_filter {p : Row → Bool} {l : Row}
    (h : ∀ r ∈ right, (conditions.all (·.holds (l.merge r))) = true → p r = true) :
    matchRow conditions (right.filter p) l = matchRow conditions right l := by
  rw [matchRow, matchRow, List.filter_map, List.filter_map, List.filter_filter]
  refine congrArg _ (List.filter_congr ?_)
  intro r hr
  cases hall : conditions.all (·.holds (l.merge r)) with
  | false => simp [Function.comp_apply, hall]
  | true => simp [Function.comp_apply, hall, h r hr hall]

/-- Looking in the bucket of the key finds what trying every pair finds, in the same
    order. -/
theorem probe_eq_nestedLoop (hc : c ∈ conditions)
    (hreads : ∀ l ∈ left, ∀ r ∈ right, Reads c l r) :
    probe c conditions left (bucketRows c right) = nestedLoop conditions left right := by
  refine List.flatMap_congr ?_
  intro l hl
  have hholds : ∀ r ∈ right, (conditions.all (·.holds (l.merge r))) = true →
      ∃ v, c.leftValue? l = some v ∧ (c.rightValue? r).map Value.key = some v.key := by
    intro r hr hall
    exact key_eq_of_holds (hreads l hl r hr) (List.all_eq_true.mp hall c hc)
  cases hv : c.leftValue? l with
  | none =>
      symm
      refine List.filter_eq_nil_iff.mpr ?_
      intro row hrow hall
      obtain ⟨r, hr, rfl⟩ := List.mem_map.mp hrow
      obtain ⟨v, hsome, -⟩ := hholds r hr hall
      rw [hv] at hsome
      exact nomatch hsome
  | some v =>
      dsimp only
      rw [get?_bucketRows]
      refine matchRow_filter ?_
      intro r hr hall
      obtain ⟨w, hw, hkey⟩ := hholds r hr hall
      rw [hv] at hw
      rw [Option.some.inj hw]
      exact beq_iff_eq.mpr hkey

-- ── Names of a table ────────────────────────────────────────────────────────

/-- The name carries the table as its prefix. -/
def Prefixed (table name : String) : Prop :=
  ∃ field, name = qualify table field

/-- No name in the row carries the table as its prefix. -/
def Row.Lacks (row : Row) (table : String) : Prop :=
  ∀ name v, row.get? name = some v → ¬ Prefixed table name

/-- The equality has a name of the table on its right side only. -/
structure JoinCondition.KeysBy (c : JoinCondition) (table : String) : Prop where
  right : Prefixed table (qualify c.rightTable c.rightField)
  left : ¬ Prefixed table (qualify c.leftTable c.leftField)

/-- For names without a point that is what makes an equality give a key. -/
theorem JoinCondition.keysBy_of_isProbeOf {table : String} (htable : Plain table)
    (hleft : Plain c.leftTable) (h : c.isProbeOf table = true) : c.KeysBy table := by
  rw [isProbeOf, Bool.and_eq_true, beq_iff_eq, bne_iff_ne] at h
  refine ⟨⟨c.rightField, by rw [h.1]⟩, ?_⟩
  rintro ⟨field, heq⟩
  exact h.2 (table_eq_of_qualify_eq hleft htable heq)

/-- A row of other tables lacks the names of a table. -/
theorem Row.Within.lacks {tables : List String} {row : Row} {table : String}
    (h : row.Within tables) (htables : ∀ u ∈ tables, Plain u) (ht : Plain table)
    (hnot : table ∉ tables) : row.Lacks table := by
  rintro name v hv ⟨field, rfl⟩
  exact nomatch (h.get?_qualify htables ht hnot).symm.trans hv

/-- A table is joined to those before it, and the tables after it to these and it. -/
theorem JoinPlan.append_tables_cons (tables : List String) (p : JoinPlan) (plans : List JoinPlan) :
    tables ++ (p :: plans).map JoinPlan.table
      = tables ++ [p.table] ++ plans.map JoinPlan.table := by
  rw [List.map_cons, List.append_assoc, List.singleton_append]

/-- No joined table was there before. -/
theorem JoinPlan.table_not_mem {tables : List String} {p : JoinPlan} {plans : List JoinPlan}
    (hnodup : (tables ++ [p.table] ++ plans.map JoinPlan.table).Nodup) : p.table ∉ tables := by
  have hboth := (List.nodup_append.mp hnodup).1
  intro hmem
  exact (List.nodup_append.mp hboth).2.2 _ hmem _ (List.mem_singleton_self _) rfl

/-- Where only the joined rows have names of the table, an equality that keys it reads its left
    side from before and its right side from there. -/
theorem JoinCondition.KeysBy.reads {table : String} (h : c.KeysBy table) {l r : Row}
    (hl : l.Lacks table) (hr : r.Within [table]) : Reads c l r := by
  constructor
  · rw [Row.get?_merge]
    cases hv : r.get? (qualify c.leftTable c.leftField) with
    | none => exact Option.none_or
    | some v =>
        obtain ⟨t, ht, field, heq⟩ := hr _ v hv
        rw [List.mem_singleton.mp ht] at heq
        exact absurd ⟨field, heq⟩ h.left
  · rw [Row.get?_merge]
    cases hv : l.get? (qualify c.rightTable c.rightField) with
    | none => exact Option.or_none
    | some v => exact absurd h.right (hl _ v hv)

/-- Whichever equality the table is keyed by, the matches are those of every pair. -/
theorem JoinPlan.matchesOf_eq_nestedLoop {p : JoinPlan} (htable : Plain p.table)
    (hsides : ∀ c ∈ p.conditions, Plain c.leftTable) (hleft : ∀ l ∈ left, l.Lacks p.table)
    (hright : ∀ r ∈ right, r.Within [p.table]) :
    p.matchesOf left right = nestedLoop p.conditions left right := by
  rw [matchesOf]
  split
  · rename_i c hprobe
    have hc : c ∈ p.conditions := List.mem_of_find?_eq_some hprobe
    have hisProbe := List.find?_some hprobe
    have hkeys := JoinCondition.keysBy_of_isProbeOf htable (hsides c hc) hisProbe
    exact probe_eq_nestedLoop hc fun l hl r hr => hkeys.reads (hleft l hl) (hright r hr)
  · rfl

end DocQuery
