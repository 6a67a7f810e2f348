import DocQuery.Proofs.Engine.Single

/-!
# A limit cuts a prefix

A query is cut in up to three places: by the store, before its rows are shown, and by the
host's cap. Whatever its kind, what comes out is a prefix of the rows that it would show if
nothing were cut (`Plan.run_eq_uncut`), and those do not depend on the limit. So a smaller
limit returns the first rows of what a larger one returns, or none at all
(`executeQuery_eq_take_of_limit`).
-/

namespace DocQuery

variable {s : Select} {store : Store}

-- ── Reading with and without a count ────────────────────────────────────────

/-- Under a cap that also stands in for a missing limit, a cut keeps the lesser of the two. -/
theorem take_cutAt (limit : Option Nat) (cap : Nat) (rows : List Row) :
    (cutAt limit rows).take cap = rows.take (min (limit.getD cap) cap) := by
  cases limit with
  | none => exact congrArg rows.take (Nat.min_self cap).symm
  | some n => rw [cutAt, Option.elim_some, List.take_take, Nat.min_comm, Option.getD_some]

/-- Of a scan with a count come the first of the rows that come without it. -/
theorem Scan.ofSort_take_some (q : Scan) (n : Nat) :
    (Outcome.ofSort (q.take (some n)) : Outcome QueryError (List Row))
      = (Outcome.ofSort (q.take none)).map (·.take n) := by
  rw [take_none, take]
  cases q.rows <;> rfl

namespace Store

variable {table : String} {access : AccessPath} {direction : Option Direction}

/-- A count cuts the rows that the store gives without it. -/
theorem fetch_some (n : Nat) :
    (store.fetch table access direction (some n)).result
      = (store.fetch table access direction none).result.map (·.take n) := by
  cases ht : store.tables.get? table with
  | none =>
      rw [fetch_missing ht, fetch_missing ht]
      rfl
  | some t =>
      rw [fetch_eq ht, fetch_eq ht]
      cases narrow access (.whole table t) with
      | error e => rfl
      | ok q => exact Scan.ofSort_take_some _ n

end Store

-- ── Queries that are not cut ────────────────────────────────────────────────

/-- The query under another limit, or under none. -/
def Select.withLimit (s : Select) (limit : Option Nat) : Select :=
  { s with limit }

/-- A limit cuts the rows of groups last. -/
theorem Select.finish_eq_cutAt (s : Select) (computed : List Row) :
    s.finish computed = ((s.withLimit none).finish computed).map (cutAt s.limit) := by
  rw [finish, finish]
  show Option.map _ (sortRows s.orderBy s.source (computed.filter s.havingHolds))
    = Option.map _ (Option.map _ (sortRows s.orderBy s.source (computed.filter s.havingHolds)))
  cases sortRows s.orderBy s.source (computed.filter s.havingHolds) with
  | none => rfl
  | some sorted =>
      refine congrArg some ?_
      show (cutAt s.limit sorted).map _ = cutAt s.limit (sorted.map _)
      cases s.limit with
      | none => rfl
      | some n => exact List.map_take

namespace Plan

variable {p : Plan}

/-- The rows that a query shows on a store when nothing is cut. -/
def uncut (p : Plan) (s : Select) (store : Store) : Reading (List Row) := do
  let rows ← p.held (s.withLimit none) store
  Reading.ofResult (p.showRows (s.withLimit none) rows)

/-- Without a limit the store does not cut. -/
theorem pushedLimit_withLimit_none (p : Plan) (s : Select) :
    p.pushedLimit (s.withLimit none) = none := by
  rw [pushedLimit]
  split <;> rfl

theorem result_uncut (p : Plan) (s : Select) (store : Store) : (p.uncut s store).result
    = (p.held (s.withLimit none) store).result >>= p.showRows (s.withLimit none) := by
  rw [uncut, Reading.result_bind]
  rfl

/-- Whatever the kind of the query, its limit cuts what it shows without one. -/
theorem showRows_eq_cutAt (p : Plan) (s : Select) (rows : List Row) :
    p.showRows s rows = (p.showRows (s.withLimit none) rows).map (cutAt s.limit) := by
  have hgrouped : (s.withLimit none).isGrouped = s.isGrouped := rfl
  have haggregate : (s.withLimit none).isAggregateOnly = s.isAggregateOnly := rfl
  have hsort : ∀ x : Option (List Row),
      (Outcome.ofSort (x.map (cutAt s.limit)) : Outcome QueryError _)
        = (Outcome.ofSort x).map (cutAt s.limit) := fun x => by cases x <;> rfl
  rw [showRows, showRows, hgrouped, haggregate]
  split
  · -- each group's row is computed as without the limit
    rw [Select.groupRows, Select.groupRows]
    show Outcome.ofChecked ((s.groups rows).mapM s.groupRow) >>= _
      = Except.map _ (Outcome.ofChecked ((s.groups rows).mapM s.groupRow) >>= _)
    cases (s.groups rows).mapM s.groupRow with
    | error e => rfl
    | ok computed =>
        show Outcome.ofSort (s.finish computed) = _
        rw [s.finish_eq_cutAt, hsort]
        rfl
  · split
    · rw [Select.aggregateAll, Select.aggregateAll]
      show Outcome.ofChecked (s.groupRow rows) >>= _
        = Except.map _ (Outcome.ofChecked (s.groupRow rows) >>= _)
      cases s.groupRow rows with
      | error e => rfl
      | ok row =>
          show Outcome.ofSort (s.finish [row]) = _
          rw [s.finish_eq_cutAt, hsort]
          rfl
    · rw [← hsort, showPlain, showPlain]
      refine congrArg Outcome.ofSort ?_
      show Option.map _ (p.ordered s rows) = Option.map _ (Option.map _ (p.ordered s rows))
      cases p.ordered s rows with
      | none => rfl
      | some sorted =>
          refine congrArg some ?_
          show (cutAt s.limit sorted).map _ = cutAt s.limit (sorted.map _)
          cases s.limit with
          | none => rfl
          | some n => exact List.map_take

/-- A plan whose limit goes to the store shows the rows as the store gives them. -/
theorem pushedLimit_eq_some {n : Nat} (h : p.pushedLimit s = some n) :
    s.limit = some n ∧ p.joins = [] ∧ ∀ rows,
      p.showRows s rows = .ok ((rows.take n).map (projectRow s.columns s.source)) := by
  have hplain : s.isPlain = true := by
    by_contra hplain
    rw [pushedLimit, Bool.eq_false_iff.mpr hplain] at h
    exact Option.some_ne_none n h.symm
  obtain ⟨hjoins, horder, hlimit⟩ := of_pushedLimit h
  refine ⟨hlimit, List.isEmpty_iff.mp hjoins, fun rows => ?_⟩
  rw [showRows_of_isPlain hplain, shown, ordered, if_neg horder, hlimit]
  rfl

/-- However a run is cut, its result is a prefix of what it shows uncut. -/
theorem run_eq_uncut (p : Plan) (s : Select) (store : Store) (maxRows : Nat) :
    (p.run s store maxRows).result
      = (p.uncut s store).result.map fun rows => (cutAt s.limit rows).take maxRows := by
  rw [run_eq, result_uncut]
  cases hcount : p.pushedLimit s with
  | none =>
      have hheld : p.held s store = p.held (s.withLimit none) store := by
        rw [held, held, hcount, pushedLimit_withLimit_none]
      rw [hheld]
      cases (p.held (s.withLimit none) store).result with
      | error e => rfl
      | ok held =>
          show (p.showRows s held).map _ = (p.showRows (s.withLimit none) held).map _
          rw [showRows_eq_cutAt]
          cases p.showRows (s.withLimit none) held <;> rfl
  | some n =>
      -- the store cut the rows, and showing them cuts nothing more
      obtain ⟨hlimit, hjoins, hshow⟩ := pushedLimit_eq_some hcount
      rw [held_single hjoins, held_single hjoins, hcount, pushedLimit_withLimit_none,
        Store.fetch_some]
      cases (store.fetch p.table p.access p.nativeDirection none).result with
      | error e => rfl
      | ok read =>
          show (p.showRows s (read.take n)).map _ = (p.showRows (s.withLimit none) read).map _
          have hcut : p.showRows s (read.take n) = p.showRows s read := by
            rw [hshow, hshow, List.take_take, Nat.min_self]
          rw [hcut, showRows_eq_cutAt]
          cases p.showRows (s.withLimit none) read <;> rfl

/-- A plain query shows as many rows as are held before it is cut. -/
theorem length_uncut (hplain : s.isPlain = true) {rows : List Row}
    (h : (p.uncut s store).result = .ok rows) :
    ∃ all, (p.held (s.withLimit none) store).result = .ok all ∧ rows.length = all.length := by
  have hplain' : (s.withLimit none).isPlain = true := hplain
  rw [result_uncut] at h
  obtain ⟨held, hheld, hshow⟩ := bind_eq_ok_iff.mp h
  rw [showRows_of_isPlain hplain'] at hshow
  obtain ⟨shown, hshown, rfl⟩ := map_eq_ok_iff.mp hshow
  have hperm := shown_perm (Outcome.ofSort_eq_ok_iff.mp hshown) nofun
  exact ⟨held, hheld, (List.length_map _).trans hperm.length_eq⟩

end Plan

-- ── Plans under another limit ───────────────────────────────────────────────

namespace Select

variable {schema : Schema}

/-- A limit is written into the plan and changes nothing else in it. -/
theorem plan_withLimit (limit : Option Nat) :
    (s.withLimit limit).plan schema = (s.plan schema).map fun p => { p with limit } := by
  have htables : (s.withLimit limit).checkTables schema = s.checkTables schema := rfl
  have haccess : (s.withLimit limit).planAccess schema = s.planAccess schema := rfl
  rw [plan, plan, htables, haccess]
  cases s.checkTables schema with
  | error e => rfl
  | ok _ =>
      cases s.planAccess schema with
      | error e => rfl
      | ok access =>
          show ((s.withLimit limit).planJoins schema [s.source] s.joins >>= _) = _
          have hsame : ∀ table, (s.withLimit limit).joinedConjuncts table
              = s.joinedConjuncts table := fun _ => rfl
          rw [planJoins_congr hsame]
          show _ = Except.map _ (s.planJoins schema [s.source] s.joins >>= _)
          cases s.planJoins schema [s.source] s.joins <;> rfl

/-- Only the rows of a single table come in an order that the store gives. -/
theorem nativeDirection_eq_none {p : Plan} (h : s.plan schema = .ok p) (hjoins : p.joins ≠ []) :
    p.nativeDirection = none := by
  obtain ⟨-, -, horder, hplans, -⟩ := plan_eq_ok h
  have hne : s.joins.isEmpty = false := by
    cases hj : s.joins with
    | nil =>
        rw [hj] at hplans
        exact absurd (Except.ok.inj hplans).symm hjoins
    | cons j js => rfl
  rw [Plan.nativeDirection, horder, orderStrategy, hne]
  rcases s.orderBy with _ | ⟨key, _ | ⟨later, keys⟩⟩ <;> rfl

/-- What a query shows on a store when it is planned with a schema and nothing is cut. -/
def uncutWith (s : Select) (schema : Schema) (store : Store) : Outcome QueryError (List Row) := do
  let p ← .ofChecked (s.plan schema)
  (p.uncut s store).result

theorem uncutWith_withLimit (limit : Option Nat) :
    (s.withLimit limit).uncutWith schema store = s.uncutWith schema store := by
  rw [uncutWith, uncutWith, plan_withLimit]
  cases s.plan schema <;> rfl

end Select

/-- The limit that a query is run with is its own or else the host's cap, which cuts it
    anyway. -/
theorem Limits.getD_limit_enforce {l : Limits} {q : Select} (h : l.enforce s = .ok q) :
    q.limit.getD l.maxRows = s.limit.getD l.maxRows := by
  rw [enforce] at h
  cases hlimit : s.limit with
  | none =>
      rw [hlimit] at h
      dsimp only at h
      split at h
      · rw [← Except.ok.inj h, hlimit]
      · split at h
        · cases h
        · rw [← Except.ok.inj h]
          rfl
  | some n =>
      rw [hlimit] at h
      dsimp only at h
      split at h
      · cases h
      · rw [← Except.ok.inj h, hlimit]

-- ── Runs of an engine ───────────────────────────────────────────────────────

namespace Engine

variable {limits : Limits} {schema : Schema}

/-- An accepted query returns what it shows uncut, as far as its limit and the host's cap
    allow. -/
theorem run_prepareWith {p : Prepared} (h : prepareWith limits schema s = .ok p) :
    (p.plan.run p.query store limits.maxRows).result
      = (s.uncutWith schema store).map
          (·.take (min (s.limit.getD limits.maxRows) limits.maxRows)) := by
  obtain ⟨-, hlimits, -, hplan⟩ := prepareWith_eq_ok.mp h
  have hquery : p.query = s.withLimit p.query.limit := (Limits.enforce_eq_ok hlimits).1
  have huncut : s.uncutWith schema store = (p.plan.uncut p.query store).result := by
    rw [← Select.uncutWith_withLimit p.query.limit, ← hquery, Select.uncutWith, hplan]
    rfl
  rw [Plan.run_eq_uncut, huncut, ← Limits.getD_limit_enforce hlimits]
  exact congrArg (Except.map · _) (funext fun rows => take_cutAt _ _ rows)

/-- A query that an engine ran was accepted. -/
theorem prepare_of_executeQuery {e : Engine} {db : Database} {out : List Row}
    (h : (e.executeQuery db s).1 = .ok out) : ∃ p, (e.prepare db s).1 = .ok p := by
  rw [executeQuery] at h
  split at h
  · cases h
  · rename_i p _ _ hprepare
    exact ⟨p, by rw [hprepare]⟩

variable {e : Engine} {db : Database} {out : List Row}

/-- What an engine returns by a schema is as much of the uncut rows as the limit and the
    host's cap allow. -/
theorem eq_take_of_executeQuery
    (hrun : (e.executeQuery db s).1 = Outcome.ofChecked (prepareWith e.limits schema s) >>= fun p =>
      (p.plan.run p.query db.store e.limits.maxRows).result)
    (h : (e.executeQuery db s).1 = .ok out) :
    ∃ p rows, prepareWith e.limits schema s = .ok p ∧
      s.uncutWith schema db.store = .ok rows ∧
      out = rows.take (min (s.limit.getD e.limits.maxRows) e.limits.maxRows) := by
  rw [h] at hrun
  cases hprepare : prepareWith e.limits schema s with
  | error error =>
      rw [hprepare] at hrun
      exact nomatch hrun
  | ok p =>
      rw [hprepare] at hrun
      have hresult := hrun.trans (run_prepareWith hprepare)
      cases huncut : s.uncutWith schema db.store with
      | error error =>
          rw [huncut] at hresult
          exact nomatch hresult
      | ok rows =>
          rw [huncut] at hresult
          exact ⟨p, rows, rfl, rfl, Except.ok.inj hresult⟩

/-- A plain query returns as many rows as it holds without a limit, as far as its own and the host's
    cap allow. -/
theorem length_executeQuery (h : (e.executeQuery db s).1 = .ok out) (hplain : s.isPlain = true) :
    ∃ p rows, (e.prepare db s).1 = .ok p ∧
      (p.plan.held (s.withLimit none) db.store).result = .ok rows ∧
      out.length = min (s.limit.getD e.limits.maxRows) (min rows.length e.limits.maxRows) := by
  obtain ⟨p, hp⟩ := prepare_of_executeQuery h
  obtain ⟨schema, -, hruns⟩ := exists_schema hp
  obtain ⟨hprepare, hrun⟩ := hruns s
  obtain ⟨p', shown, hprepare', huncut, hout⟩ := eq_take_of_executeQuery hrun h
  rw [hp, hprepare'] at hprepare
  obtain rfl := Except.ok.inj hprepare
  obtain ⟨-, hlimits, -, hplan⟩ := prepareWith_eq_ok.mp hprepare'
  have hquery : p.query = s.withLimit p.query.limit := (Limits.enforce_eq_ok hlimits).1
  have hplain' : p.query.isPlain = true := by
    rw [hquery]
    exact hplain
  rw [← Select.uncutWith_withLimit p.query.limit, ← hquery, Select.uncutWith, hplan] at huncut
  obtain ⟨rows, hheld, hlength⟩ := Plan.length_uncut hplain' huncut
  rw [hquery] at hheld
  refine ⟨p, rows, hp, hheld, ?_⟩
  rw [hout, List.length_take, hlength]
  omega

end Engine

/-- **A limit returns a prefix.** Under two limits, or a limit and none, a query that succeeds
    both times returns under the smaller one the first rows of what it returns under the
    other, whatever its kind. No result is longer than the limit or the host's cap, and that
    of a plain query is as long as these and the rows held without a limit allow. -/
theorem executeQuery_eq_take_of_limit (e : Engine) (db : Database) (s : Select) :
    (∀ (k : Nat) (limit : Option Nat) (short long : List Row),
      (∀ m, limit = some m → k ≤ m) →
      (e.executeQuery db (s.withLimit (some k))).1 = .ok short →
      (e.executeQuery db (s.withLimit limit)).1 = .ok long →
      short = long.take k) ∧
    (∀ out, (e.executeQuery db s).1 = .ok out →
      (∀ n, s.limit = some n → out.length ≤ n) ∧ out.length ≤ e.limits.maxRows ∧
      (s.isPlain = true → ∃ p rows, (e.prepare db s).1 = .ok p ∧
        (p.plan.held (s.withLimit none) db.store).result = .ok rows ∧
        out.length = min (s.limit.getD e.limits.maxRows) (min rows.length e.limits.maxRows))) := by
  refine ⟨?_, ?_⟩
  · intro k limit short long hle hshort hlong
    obtain ⟨p, hp⟩ := Engine.prepare_of_executeQuery hshort
    obtain ⟨schema, -, hruns⟩ := Engine.exists_schema hp
    obtain ⟨-, rows, -, hrows, hk⟩ := Engine.eq_take_of_executeQuery (hruns _).2 hshort
    obtain ⟨-, rows', -, hrows', hm⟩ := Engine.eq_take_of_executeQuery (hruns _).2 hlong
    rw [Select.uncutWith_withLimit] at hrows hrows'
    rw [hrows] at hrows'
    obtain rfl := Except.ok.inj hrows'
    have hcut : min ((some k).getD e.limits.maxRows) e.limits.maxRows
        = min k (min (limit.getD e.limits.maxRows) e.limits.maxRows) := by
      cases limit with
      | none => simp
      | some m =>
          have := hle m rfl
          simp only [Option.getD_some]
          omega
    rw [hk, hm, List.take_take]
    exact congrArg rows.take hcut
  · intro out h
    obtain ⟨p, hp⟩ := Engine.prepare_of_executeQuery h
    obtain ⟨schema, -, hruns⟩ := Engine.exists_schema hp
    obtain ⟨-, rows, -, -, hout⟩ := Engine.eq_take_of_executeQuery (hruns s).2 h
    have hlength : out.length ≤ min (s.limit.getD e.limits.maxRows) e.limits.maxRows := by
      rw [hout]
      exact List.length_take_le _ _
    refine ⟨?_, Nat.le_trans hlength (Nat.min_le_right _ _), Engine.length_executeQuery h⟩
    intro n hn
    rw [hn] at hlength
    exact Nat.le_trans hlength (Nat.min_le_left _ _)

/-- What each user has ordered. -/
def Select.sampleOrdered : Select :=
  { columns := [.field (some "users") "name" none, .tableStar "orders"]
    source := "users"
    indexHint := none
    joins := [⟨"orders", none, [⟨"users", "name", "orders", "user"⟩]⟩]
    filter := none
    groupBy := []
    having := none
    orderBy := []
    limit := none }

theorem executeQuery_eq_take_of_limit_sample :
    ∃ short long,
      (Engine.sample.executeQuery Database.sample (Select.sampleOrdered.withLimit (some 1))).1
        = .ok short ∧
      (Engine.sample.executeQuery Database.sample (Select.sampleOrdered.withLimit none)).1
        = .ok long ∧
      long.length = 2 ∧ short = long.take 1 := by
  have hshort : (Engine.sample.executeQuery Database.sample
      (Select.sampleOrdered.withLimit (some 1))).1.isOk = true := by decide +kernel
  have hlong : (Engine.sample.executeQuery Database.sample
      (Select.sampleOrdered.withLimit none)).1.toOption.map List.length = some 2 := by
    decide +kernel
  obtain ⟨short, hshort⟩ := exists_eq_ok_of_isOk hshort
  obtain ⟨long, hout, hlength⟩ := Option.map_eq_some_iff.mp hlong
  have hout := eq_ok_of_toOption hout
  refine ⟨short, long, hshort, hout, hlength, ?_⟩
  refine (executeQuery_eq_take_of_limit Engine.sample Database.sample Select.sampleOrdered).1 1 none
    short long ?_ hshort hout
  intro m hm
  cases hm

end DocQuery
