import DocQuery.Proofs.Engine.JoinHint
import DocQuery.Proofs.Engine.Snapshot

/-!
# How many scans a query opens

A fetch opens one scan of its table. A table that is joined is read once, or else looked up once
for each distinct key of the rows that enter the join; where keys tell values apart, those are as
many as there are different values (`length_distinctKeys`). So each join has its count, said of the
rows that enter it (`JoinPlan.scans_joinRows`), and a query opens the sum of them and one more.

* `scans_as_planned` — the scans of every request to an engine whose schema is the store's own.
-/

namespace DocQuery

-- ── Readings ────────────────────────────────────────────────────────────────

namespace Reading

variable {α β : Type}

/-- Two steps, the first of which has a result, scan as often as both. -/
theorem scans_bind_ok {r : Reading α} {a : α} (h : r.result = .ok a) (next : α → Reading β) :
    (r >>= next).scans = r.scans + (next a).scans := by
  show (r.andThen next).scans = _
  rw [andThen, h]

/-- Two steps, the first of which fails, scan as often as the first. -/
theorem scans_bind_error {r : Reading α} {e : Failure QueryError} (h : r.result = .error e)
    (next : α → Reading β) : (r >>= next).scans = r.scans := by
  show (r.andThen next).scans = _
  rw [andThen, h]

/-- What is made of a result without a scan adds none. -/
theorem scans_bind_of_eq_zero (r : Reading α) {next : α → Reading β}
    (h : ∀ a, (next a).scans = 0) : (r >>= next).scans = r.scans := by
  show (r.andThen next).scans = _
  rw [andThen]
  cases r.result with
  | error e => rfl
  | ok a => exact congrArg (r.scans + ·) (h a)

/-- Readings that each open one scan open as many as they are, unless one panics and ends them. -/
theorem scans_all (items : List β) {read : β → Reading α} (h : ∀ x ∈ items, (read x).scans = 1) :
    (all (items.map read)).scans ≤ items.length ∧
      ((all (items.map read)).result.Calm → (all (items.map read)).scans = items.length) := by
  induction items with
  | nil => exact ⟨Nat.le_refl 0, fun _ => rfl⟩
  | cons x items ih =>
      obtain ⟨hx, hitems⟩ := List.forall_mem_cons.mp h
      obtain ⟨hle, heq⟩ := ih hitems
      rw [List.map_cons, List.length_cons, all]
      split
      · exact ⟨by dsimp only; omega, fun hcalm => absurd rfl hcalm⟩
      all_goals
        rename_i hrest
        rw [hrest] at hle heq
        dsimp only at hle heq ⊢
      · exact ⟨by omega, fun hcalm => absurd rfl hcalm⟩
      · -- a refusal stops nothing
        rename_i hpanic _
        exact ⟨by omega, fun _ => by rw [heq hpanic]; omega⟩
      · exact ⟨by omega, fun hcalm => by rw [heq hcalm]; omega⟩
      · exact ⟨by omega, fun _ => by rw [heq (Outcome.calm_ok _)]; omega⟩

end Reading

-- ── Fetching ────────────────────────────────────────────────────────────────

namespace Store

variable {store : Store} {table : String} {t : StoredTable}

theorem scans_openScan (ht : store.tables.get? table = some t) :
    (store.openScan table).scans = 1 := by
  rw [openScan, scan, ht]

/-- A fetch counts as one scan, whatever its path is. -/
theorem scans_fetch (ht : store.tables.get? table = some t) (access : AccessPath)
    (direction : Option Direction) (count : Option Nat) :
    (store.fetch table access direction count).scans = 1 := by
  rw [fetch, Reading.scans_bind_ok (result_openScan ht), scans_openScan ht]
  exact congrArg (1 + ·) (Reading.scans_bind_of_eq_zero _ fun _ => rfl)

/-- A look-up counts as one scan. -/
theorem scans_fetchKey (ht : store.tables.get? table = some t) (index field : String)
    (filter : Option Filter) (key : Value) :
    (store.fetchKey table index field filter key).scans = 1 := by
  rw [fetchKey, Reading.scans_bind_ok (result_openScan ht), scans_openScan ht]
  exact congrArg (1 + ·) (Reading.scans_bind_of_eq_zero _ fun _ => rfl)

end Store

-- ── One join ────────────────────────────────────────────────────────────────

section Join

variable {store : Store} {join : JoinPlan} {c : JoinCondition} {left : List Row}

/-- Keys are told apart just as the values that they are made of. -/
theorem length_distinctKeys (hleft : ∀ row ∈ left, row.Keyable) : (distinctKeys c left).length
    = ((left.filterMap c.leftValue?).eraseDupsBy Value.equal).length := by
  have hkeys : (distinctKeys c left).length
      = ((left.filterMap c.leftValue?).map Value.key).eraseDups.length := by
    rw [← Keyed.keys_foldl_alter Value.key fun v first => first.getD v]
    rw [distinctKeys, Keyed.firsts, Keyed.values, Keyed.keys, List.length_map, List.length_map]
  have hvalue : ∀ v ∈ left.filterMap c.leftValue?, v.Keyable ∧ v.isNull = false := by
    intro v hv
    obtain ⟨row, hrow, hleftValue⟩ := List.mem_filterMap.mp hv
    obtain ⟨hget, hnull⟩ := leftValue?_eq_some.mp hleftValue
    exact ⟨hleft row hrow _ _ hget, hnull⟩
  have hsame : ∀ v ∈ left.filterMap c.leftValue?, ∀ w ∈ left.filterMap c.leftValue?,
      (v.key == w.key) = v.equal w := by
    intro v hv w hw
    obtain ⟨hvk, hvn⟩ := hvalue v hv
    obtain ⟨hwk, hwn⟩ := hvalue w hw
    rw [Bool.eq_iff_iff, beq_iff_eq, Value.key_eq_iff_of_keyable hvk hwk hvn hwn]
  rw [hkeys, ← Keyed.map_eraseDupsBy, List.length_map, Keyed.eraseDupsBy_congr hsame]

/-- The values other than null by which rows from before are matched. -/
def JoinPlan.leftValues (join : JoinPlan) (left : List Row) : List Value :=
  match join.probe? with
  | some c => left.filterMap c.leftValue?
  | none => []

/-- The scans that a join calls for: one, or one for each of the different values. -/
def JoinPlan.scansFor (join : JoinPlan) (left : List Row) : Nat :=
  match join.strategy with
  | .indexedLookup _ => ((join.leftValues left).eraseDupsBy Value.equal).length
  | .hashProbe | .nestedLoop => 1

theorem scans_scanJoin {t : StoredTable} (ht : store.tables.get? join.table = some t)
    (left : List Row) : (scanJoin store join left).scans = 1 := by
  rw [scanJoin, ← Store.scans_fetch ht join.access none none]
  cases join.probe? <;> exact Reading.scans_bind_of_eq_zero _ fun _ => rfl

/-- A join by look-ups counts once per key, unless it panics half-way. -/
theorem scans_lookupByKey {t : StoredTable} (ht : store.tables.get? join.table = some t)
    (c : JoinCondition) (left : List Row) (index : String) :
    (lookupByKey store join c index left).scans ≤ (distinctKeys c left).length ∧
      ((lookupByKey store join c index left).result.Calm →
        (lookupByKey store join c index left).scans = (distinctKeys c left).length) := by
  obtain ⟨hle, heq⟩ := Reading.scans_all (distinctKeys c left) fun key _ =>
    Store.scans_fetchKey ht index c.rightField join.pushdown key
  rw [lookupByKey, Reading.scans_bind_of_eq_zero _ fun _ => rfl]
  refine ⟨hle, fun hcalm => heq fun hpanic => hcalm ?_⟩
  exact Reading.result_bind_error hpanic _

/-- A join that is answered as it was planned opens the scans that it calls for, unless a look-up
    panics. -/
theorem JoinPlan.scans_joinRows {t : StoredTable} (ht : store.tables.get? join.table = some t)
    (hlooks : ∀ index, join.strategy = .indexedLookup index → join.LooksUp store left)
    (hleft : ∀ row ∈ left, row.Keyable) : (joinRows store left join).scans ≤ join.scansFor left ∧
      ((joinRows store left join).result.Calm →
        (joinRows store left join).scans = join.scansFor left) := by
  rw [joinRows, scansFor]
  cases hstrategy : join.strategy with
  | indexedLookup index =>
      obtain ⟨index', c, hlookup, hprobe, hserved⟩ := hlooks index hstrategy
      obtain rfl := JoinStrategy.indexedLookup.inj (hstrategy.symm.trans hlookup)
      obtain ⟨hle, heq⟩ := scans_lookupByKey ht c left index
      rw [length_distinctKeys hleft] at hle heq
      rw [leftValues, hprobe]
      dsimp only
      rcases Outcome.granted_iff.mp (granted_lookupByKey_iff.mpr hserved) with hfound | ⟨_, hfound⟩
      · rw [hfound]
        exact ⟨hle, fun hcalm => absurd rfl hcalm⟩
      · rw [hfound]
        exact ⟨hle, fun _ => heq (hfound ▸ Outcome.calm_ok _)⟩
  | hashProbe => exact ⟨(scans_scanJoin ht left).le, fun _ => scans_scanJoin ht left⟩
  | nestedLoop => exact ⟨(scans_scanJoin ht left).le, fun _ => scans_scanJoin ht left⟩

end Join

-- ── One join after the other ────────────────────────────────────────────────

namespace Plan

variable {p : Plan} {store : Store}

/-- The count of scans is what a plan calls for on a store: one for the first table, and for each
    join what it calls for by the rows that enter it. -/
def CallsFor (p : Plan) (store : Store) (scans : Nat) : Prop :=
  ∃ entering : List (List Row), entering.length = p.joins.length ∧
    (∀ i left, entering[i]? = some left →
      (p.heldAfter store (p.joins.take i)).result = .ok left) ∧
    scans = 1 + (List.zipWith JoinPlan.scansFor p.joins entering).sum

/-- The count of scans is no more than what a plan calls for up to one of its joins, the last that
    rows enter. -/
def CallsForAtMost (p : Plan) (store : Store) (scans : Nat) : Prop :=
  ∃ entering : List (List Row), entering.length ≤ p.joins.length ∧
    (∀ i left, entering[i]? = some left →
      (p.heldAfter store (p.joins.take i)).result = .ok left) ∧
    scans ≤ 1 + (List.zipWith JoinPlan.scansFor p.joins entering).sum

end Plan

/-- The store answers the look-ups or the read of a join as they were planned. -/
structure JoinPlan.RunsAsPlanned (join : JoinPlan) (store : Store) : Prop where
  opens : store.Opens join.table join.access
  looksUp : ∀ index, join.strategy = .indexedLookup index → ∀ left, join.LooksUp store left
  selects : join.SelectsPushdown

section Joins

variable {store : Store}

/-- Joins that run as planned open the scans that they call for, or if one panics no more than those
    up to that one. The induction is on the joins: each leaves rows whose keys tell their values
    apart. -/
theorem scans_foldlM_joinRows {joins : List JoinPlan} {left : List Row}
    (hruns : ∀ join ∈ joins, join.RunsAsPlanned store)
    (hkeys : ∀ table t, store.tables.get? table = some t → ∀ row ∈ t.rows, row.Keyable)
    (hleft : ∀ row ∈ left, row.Keyable) : ∃ entering : List (List Row),
      entering.length ≤ joins.length ∧
      (∀ i rows, entering[i]? = some rows →
        ((joins.take i).foldlM (joinRows store) left).result = .ok rows) ∧
      (joins.foldlM (joinRows store) left).scans
        ≤ (List.zipWith JoinPlan.scansFor joins entering).sum ∧
      ((joins.foldlM (joinRows store) left).result.Calm → entering.length = joins.length ∧
        (joins.foldlM (joinRows store) left).scans
          = (List.zipWith JoinPlan.scansFor joins entering).sum) := by
  induction joins generalizing left with
  | nil => exact ⟨[], Nat.le_refl 0, fun _ _ h => (nomatch h), Nat.le_refl 0, fun _ => ⟨rfl, rfl⟩⟩
  | cons join joins ih =>
      obtain ⟨hjoin, hjoins⟩ := List.forall_mem_cons.mp hruns
      obtain ⟨t, ht⟩ := Store.exists_of_opens hjoin.opens
      obtain ⟨hle, heq⟩ :=
        JoinPlan.scans_joinRows ht (fun index h => hjoin.looksUp index h left) hleft
      have hgranted := granted_joinRows_iff.mpr (Or.inr hjoin.opens : join.LooksUp store left ∨ _)
      rw [List.foldlM_cons]
      rcases Outcome.granted_iff.mp hgranted with hpanic | ⟨mid, hmid⟩
      · -- no rows enter a later join
        refine ⟨[left], Nat.le_add_left 1 _, ?_, ?_, fun hcalm => ?_⟩
        · intro i rows hi
          obtain ⟨rfl, rfl⟩ : i = 0 ∧ rows = left := by
            cases i with
            | zero => exact ⟨rfl, (Option.some.inj hi).symm⟩
            | succ i => exact nomatch hi
          rfl
        · rw [Reading.scans_bind_error hpanic, List.zipWith_cons_cons, List.zipWith_nil_right,
            List.sum_singleton]
          exact hle
        · exact absurd (Reading.result_bind_error hpanic _) hcalm
      · have hkeyable : ∀ row ∈ mid, row.Keyable := by
          intro row hrow
          obtain ⟨l, hl, t', ht', r, hr, rfl⟩ := hjoin.selects.mem_joinRows hkeys hleft hmid hrow
          exact (hleft l hl).merge ((hkeys _ t' ht' r hr).qualified _)
        obtain ⟨entering, hlength, hentering, hscans, hcalm⟩ := ih hjoins hkeyable
        have hone := heq (hmid ▸ Outcome.calm_ok mid)
        rw [Reading.result_bind_ok hmid, Reading.scans_bind_ok hmid, hone]
        refine ⟨left :: entering, Nat.succ_le_succ hlength, ?_, Nat.add_le_add_left hscans _, ?_⟩
        · intro i rows hi
          cases i with
          | zero =>
              obtain rfl := Option.some.inj hi
              rfl
          | succ i =>
              rw [List.take_succ_cons, List.foldlM_cons]
              exact (Reading.result_bind_ok hmid _).trans (hentering i rows hi)
        · intro h
          obtain ⟨hall, hsum⟩ := hcalm h
          exact ⟨congrArg (· + 1) hall, congrArg (join.scansFor left + ·) hsum⟩

/-- A run opens the first table once, and the other scans are those of its joins. -/
theorem Plan.scans_run {p : Plan} {t : StoredTable} {source : List Row} {s : Select}
    {maxRows : Nat} (ht : store.tables.get? p.table = some t)
    (hsource : (store.fetch p.table p.access p.nativeDirection (p.pushedLimit s)).result
      = .ok source) :
    (p.run s store maxRows).scans = 1 + (p.joinedRows store source).scans := by
  rw [run, Reading.scans_bind_ok hsource, Store.scans_fetch ht]
  refine congrArg (1 + ·) (Reading.scans_bind_of_eq_zero _ fun rows => ?_)
  exact Reading.scans_bind_of_eq_zero _ fun _ => rfl

theorem Plan.scans_joinedRows {p : Plan} {source : List Row} (hempty : p.joins.isEmpty = false) :
    (p.joinedRows store source).scans
      = (p.joins.foldlM (joinRows store) (source.map (Row.qualified p.table))).scans := by
  rw [joinedRows, hempty]
  exact Reading.scans_bind_of_eq_zero _ fun _ => rfl

/-- A plan whose parts run as planned opens the scans that it calls for, whatever is shown, unless
    a read panics. -/
theorem Plan.callsFor_scans_run {p : Plan} (hopens : store.Opens p.table p.access)
    (hruns : ∀ join ∈ p.joins, join.RunsAsPlanned store)
    (hkeys : ∀ table t, store.tables.get? table = some t → ∀ row ∈ t.rows, row.Keyable)
    (hdirection : p.joins ≠ [] → p.nativeDirection = none) (s : Select) (maxRows : Nat) :
    p.CallsForAtMost store (p.run s store maxRows).scans ∧
      ((p.held s store).result.Calm → p.CallsFor store (p.run s store maxRows).scans) := by
  obtain ⟨t, ht⟩ := Store.exists_of_opens hopens
  have hgranted :
      (store.fetch p.table p.access p.nativeDirection (p.pushedLimit s)).result.Granted :=
    Store.granted_fetch_iff.mpr hopens
  rcases Outcome.granted_iff.mp hgranted with hpanic | ⟨source, hsource⟩
  · refine ⟨⟨[], Nat.zero_le _, fun _ _ h => (nomatch h), ?_⟩, fun hcalm => ?_⟩
    · rw [run, Reading.scans_bind_error hpanic, Store.scans_fetch ht]
      exact Nat.le_add_right 1 _
    · exact absurd (Reading.result_bind_error hpanic _) hcalm
  have hheld : (p.held s store).result = (p.joinedRows store source).result :=
    Reading.result_bind_ok hsource _
  rw [scans_run ht hsource, hheld]
  by_cases hjoins : p.joins = []
  · have hnone : (p.joinedRows store source).scans = 0 := by
      rw [joinedRows, hjoins]
      rfl
    have hentering : ∀ i left, ([] : List (List Row))[i]? = some left →
        (p.heldAfter store (p.joins.take i)).result = .ok left := fun _ _ h => (nomatch h)
    rw [hnone]
    exact ⟨⟨[], Nat.zero_le _, hentering, Nat.le_add_right 1 _⟩,
      fun _ => ⟨[], by rw [hjoins]; rfl, hentering, by rw [hjoins]; rfl⟩⟩
  · -- with joins the store does not cut or turn around the first table
    have hempty : p.joins.isEmpty = false := List.isEmpty_eq_false_iff.mpr hjoins
    have hlimit : p.pushedLimit s = none := by
      rw [pushedLimit, hempty, Bool.and_false, Bool.false_and]
      rfl
    rw [hdirection hjoins, hlimit] at hsource
    have hqualified : ∀ row ∈ source.map (Row.qualified p.table), row.Keyable := by
      intro row hrow
      obtain ⟨stored, hstored, rfl⟩ := List.mem_map.mp hrow
      obtain ⟨t', ht', hmem⟩ := Store.mem_of_fetch hsource hstored
      exact (hkeys _ t' ht' stored hmem).qualified _
    obtain ⟨entering, hlength, hentering, hle, hcalm⟩ :=
      scans_foldlM_joinRows hruns hkeys hqualified
    have hafter : ∀ i left, entering[i]? = some left →
        (p.heldAfter store (p.joins.take i)).result = .ok left := fun i left hi =>
      (Reading.result_bind_ok hsource _).trans (hentering i left hi)
    rw [scans_joinedRows hempty]
    refine ⟨⟨entering, hlength, hafter, Nat.add_le_add_left hle 1⟩, fun hjoined => ?_⟩
    have hfolded : (p.joins.foldlM (joinRows store)
        (source.map (Row.qualified p.table))).result.Calm := by
      intro hpanic
      refine hjoined ?_
      rw [joinedRows, hempty]
      exact Reading.result_bind_error hpanic _
    obtain ⟨hall, hsum⟩ := hcalm hfolded
    exact ⟨entering, hall, hafter, congrArg (1 + ·) hsum⟩

end Joins

-- ── Prepared queries ────────────────────────────────────────────────────────

/-- Look-ups are planned for a key only. -/
theorem JoinPlan.exists_probe?_of_ofJoin {schema : Schema} {joined : List String}
    {conjuncts : List Condition} {join : Join} {p : JoinPlan}
    (h : ofJoin schema joined conjuncts join = .ok p) {index : String}
    (hstrategy : p.strategy = .indexedLookup index) : ∃ c, p.probe? = some c := by
  rw [ofJoin] at h
  split at h
  · cases h
  · obtain rfl := Except.ok.inj h
    simp only [strategyFor] at hstrategy
    split at hstrategy
    · cases hstrategy
    · cases hstrategy
    · rename_i c _ hprobe _
      exact ⟨c, hprobe⟩

namespace Engine

variable {e : Engine} {db : Database} {s : Select}

/-- A query that is prepared by the schema of a store opens there what its plan calls for, unless a
    read panics. -/
theorem callsFor_of_prepareWith {limits : Limits} {store : Store} {p : Prepared}
    (hstore : store.Reachable Document.IsJson) (h : prepareWith limits store.schema s = .ok p)
    (maxRows : Nat) :
    p.plan.CallsForAtMost store (p.plan.run p.query store maxRows).scans ∧
      ((p.plan.held p.query store).result.Calm →
        p.plan.CallsFor store (p.plan.run p.query store maxRows).scans) := by
  have hanswered := answered_of_prepareWith h
  obtain ⟨-, -, -, hplan⟩ := prepareWith_eq_ok.mp h
  obtain ⟨-, -, -, hjoins, -⟩ := Select.plan_eq_ok hplan
  refine Plan.callsFor_scans_run hanswered.source ?_ (fun _ _ => hstore.keyable)
    (Select.nativeDirection_eq_none hplan) p.query maxRows
  intro join hjoin
  refine ⟨hanswered.joins join hjoin, ?_, Select.selectsPushdown_of_planJoins hjoins join hjoin⟩
  intro index hstrategy left
  obtain ⟨_, -, _, hof⟩ := Select.exists_ofJoin_of_mem hjoins hjoin
  obtain ⟨c, hprobe⟩ := JoinPlan.exists_probe?_of_ofJoin hof hstrategy
  have hlookup := hanswered.lookups join hjoin index c hstrategy hprobe .null
  exact ⟨index, c, hstrategy, hprobe, Or.inr (Store.granted_fetchKey_iff.mp hlookup)⟩

/-- To prepare a query opens no scan and leaves the store. -/
theorem prepare_frame (e : Engine) (db : Database) (s : Select) :
    (e.prepare db s).2.2.scans = db.scans ∧ (e.prepare db s).2.2.store = db.store ∧
      (e.prepare db s).2.1.limits = e.limits := by
  cases hknown : e.snapshot.schema with
  | some schema =>
      rw [prepare_known hknown]
      exact ⟨rfl, rfl, rfl⟩
  | none =>
      rw [(prepare_unknown hknown db s).1, Database.readSchema]
      dsimp only
      split <;> exact ⟨rfl, rfl, rfl⟩

/-- A statement that is refused reads nothing. -/
theorem scans_executeQuery_of_error {error : QueryError} (h : (e.prepare db s).1 = .error error) :
    (e.executeQuery db s).2.2.scans = db.scans := by
  rw [← (e.prepare_frame db s).1, executeQuery]
  rcases hprepare : e.prepare db s with ⟨_ | p, e', db'⟩
  · rfl
  · rw [hprepare] at h
    cases h

/-- A statement that is prepared reads what the run of its plan reads. -/
theorem scans_executeQuery_of_ok {p : Prepared} (h : (e.prepare db s).1 = .ok p) :
    (e.executeQuery db s).2.2.scans
      = db.scans + (p.plan.run p.query db.store e.limits.maxRows).scans := by
  obtain ⟨hscans, hstore, hlimits⟩ := e.prepare_frame db s
  rw [← hscans, ← hstore, ← hlimits, executeQuery]
  rcases hprepare : e.prepare db s with ⟨_ | p', e', db'⟩
  · rw [hprepare] at h
    cases h
  · rw [hprepare] at h
    rw [← Except.ok.inj h]
    rfl

/-- Each join of a query has its plan. -/
theorem map_table_of_prepareWith {limits : Limits} {schema : Schema} {p : Prepared}
    (h : prepareWith limits schema s = .ok p) :
    p.plan.joins.map JoinPlan.table = s.joins.map Join.table := by
  obtain ⟨-, hlimits, -, hplan⟩ := prepareWith_eq_ok.mp h
  obtain ⟨-, -, -, hjoins, -⟩ := Select.plan_eq_ok hplan
  rw [Select.tables_planJoins hjoins, (Limits.enforce_eq_ok hlimits).1]

/-- **A query opens the scans that its plan calls for.** On a store of JSON documents, with the
    schema of that store: to explain opens none, nor does a query that is refused. One that is
    accepted opens one scan for its first table and for each join, in their order, one if it reads
    the table, or else one for each different value other than null by which the rows that enter
    the join are matched, however many rows share it. If a read panics the query ends with it, and
    has opened no more than these up to the join that reads. -/
theorem scans_as_planned (hstore : db.store.Reachable Document.IsJson)
    (hcurrent : e.IsCurrent db) :
    (∀ source, (e.explain db source).2.2.scans = db.scans) ∧
    (∀ source error, e.prepareText db source = .error error →
      (e.execute db source).2.2.scans = db.scans) ∧
    (∀ source p, e.prepareText db source = .ok p → ∃ scans,
      (e.execute db source).2.2.scans = db.scans + scans ∧ p.plan.CallsForAtMost db.store scans ∧
      ((p.plan.held p.query db.store).result.Calm → p.plan.CallsFor db.store scans)) ∧
    ∀ s, (∀ error, (e.prepare db s).1 = .error error →
        (e.executeQuery db s).2.2.scans = db.scans) ∧
      ∀ p, (e.prepare db s).1 = .ok p → p.plan.joins.map JoinPlan.table = s.joins.map Join.table ∧
        ∃ scans, (e.executeQuery db s).2.2.scans = db.scans + scans ∧
          p.plan.CallsForAtMost db.store scans ∧
          ((p.plan.held p.query db.store).result.Calm → p.plan.CallsFor db.store scans) := by
  have haccepted : ∀ s p, (e.prepare db s).1 = .ok p →
      p.plan.joins.map JoinPlan.table = s.joins.map Join.table ∧
        ∃ scans, (e.executeQuery db s).2.2.scans = db.scans + scans ∧
          p.plan.CallsForAtMost db.store scans ∧
          ((p.plan.held p.query db.store).result.Calm → p.plan.CallsFor db.store scans) := by
    intro s p hp
    obtain ⟨schema, hschema, hruns⟩ := exists_schema hp
    have hprepare := (hruns s).1.symm.trans hp
    rw [hschema hcurrent] at hprepare
    exact ⟨map_table_of_prepareWith hprepare, _, scans_executeQuery_of_ok hp,
      callsFor_of_prepareWith hstore hprepare e.limits.maxRows⟩
  refine ⟨?_, ?_, ?_, fun s => ⟨fun _ => scans_executeQuery_of_error, haccepted s⟩⟩
  · intro source
    rw [explain]
    cases Select.ofText source with
    | error error => rfl
    | ok s => exact (e.prepare_frame db s).1
  · intro source error h
    rw [prepareText] at h
    rw [execute]
    cases hread : Select.ofText source with
    | error error => rfl
    | ok s =>
        rw [hread] at h
        exact scans_executeQuery_of_error h
  · intro source p h
    obtain ⟨s, hread, hp⟩ := bind_eq_ok_iff.mp h
    rw [execute, hread]
    exact (haccepted s p hp).2

/-- Another order of a user who has one. -/
def sampleOrder : Document :=
  .object [("user", .text "Ann"), ("total", .integer 7)]

/-- The sample with that order, and with an index of the users by name. -/
def sampleShared : Database :=
  let store := (Store.sample.insert "orders" sampleOrder).2
  { Database.empty with
    store := (store.defineIndex "users" "by_name" ["name"]).toOption.getD .empty }

/-- Each order with the age of its user, who is looked up by name. -/
def sampleOfUsers : String :=
  "SELECT orders.total, users.age FROM orders JOIN users@by_name ON orders.user = users.name"

/-- Three orders of two users make for two look-ups. -/
theorem scans_as_planned_sample : ∃ p,
    Engine.sample.prepareText sampleShared sampleOfUsers = .ok p ∧
    p.plan.joins.map JoinPlan.strategy = [.indexedLookup "by_name"] ∧
    sampleShared.store.rowCount? "orders" = some 3 ∧ p.plan.CallsFor sampleShared.store 3 ∧
    (Engine.sample.execute sampleShared sampleOfUsers).2.2.scans = 3 := by
  have hjson : sampleOrder.IsJson := by
    refine .object (List.forall_mem_cons.mpr ⟨.text _, List.forall_mem_singleton.mpr ?_⟩)
    exact .integer (by decide) (by decide)
  have hindex : (Store.sample.insert "orders" sampleOrder).2.defineIndex "users" "by_name" ["name"]
      = .ok sampleShared.store := eq_ok_of_toOption (by decide +kernel)
  have hreachable : sampleShared.store.Reachable Document.IsJson :=
    ((Store.reachable_sample.mono fun _ h => h.1).insert _ hjson).defineIndex hindex
  have hplan : ((Engine.sample.prepareText sampleShared sampleOfUsers).toOption.map fun p =>
      (p.plan.joins.map JoinPlan.strategy, (p.plan.held p.query sampleShared.store).result.isOk))
      = some ([.indexedLookup "by_name"], true) := by
    decide +kernel
  have hexecute : (Engine.sample.execute sampleShared sampleOfUsers).2.2.scans = 3 := by
    decide +kernel
  obtain ⟨p, hp, hplan⟩ := Option.map_eq_some_iff.mp hplan
  obtain ⟨hstrategy, hheld⟩ := Prod.mk.inj hplan
  obtain ⟨held, hheld⟩ := exists_eq_ok_of_isOk hheld
  have hp := eq_ok_of_toOption hp
  obtain ⟨-, -, hplanned, -⟩ := scans_as_planned (e := Engine.sample) hreachable (Or.inl rfl)
  obtain ⟨scans, hscans, -, hcalls⟩ := hplanned sampleOfUsers p hp
  rw [hexecute] at hscans
  obtain rfl : 3 = scans := hscans.trans (Nat.zero_add scans)
  exact ⟨p, hp, hstrategy, by decide +kernel, hcalls (hheld ▸ Outcome.calm_ok held), hexecute⟩

end Engine

end DocQuery
