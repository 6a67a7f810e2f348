import DocQuery.Engine.Run
import DocQuery.Proofs.Engine.Prepared
import DocQuery.Proofs.Result.Sort

/-!
# What a run shows

A run reads its first table and joins the others, and shows what the rows that it then holds make,
cut at the host's cap (`run_eq`). A plain query shows the rows that it returns, each projected
(`run_eq_returned`); on a single table those are the first of the rows that meet its
condition, in the order that the store or a sort gives them (`returned_single`). There the
store may cut at the limit by itself, since nothing after the read drops or reorders rows.
-/

namespace DocQuery

namespace Plan

/-- The rows that are held after the last join, to be shown. -/
def held (p : Plan) (s : Select) (store : Store) : Reading (List Row) := do
  let source ← store.fetch p.table p.access p.nativeDirection (p.pushedLimit s)
  p.joinedRows store source

/-- The rows that a plain query shows, before they are projected, unless a sort panics. -/
def shown (p : Plan) (s : Select) (rows : List Row) : Option (List Row) :=
  (p.ordered s rows).map (cutAt s.limit)

/-- The rows that a plain query returns, before they are projected. -/
def returned (p : Plan) (s : Select) (store : Store) (maxRows : Nat) : Reading (List Row) := do
  let rows ← p.held s store
  let shown ← Reading.ofResult (.ofSort (p.shown s rows))
  return shown.take maxRows

/-- The rows that a plan finds when it reads everything, before they are ordered and cut. -/
def found (p : Plan) (store : Store) : Reading (List Row) := do
  let source ← store.fetch p.table p.access none none
  p.joinedRows store source

/-- The rows of a single table as the plan orders them: as the store gives them, or by a sort
    of what the store gives. -/
def arranged (p : Plan) (s : Select) (rows : List Row) : Option (List Row) :=
  match p.order with
  | .unordered => p.access.arrange none rows
  | .native direction => p.access.arrange (some direction) rows
  | .inMemory => (p.access.arrange none rows).bind (sortRows s.orderBy s.source)

variable {p : Plan} {s : Select} {store : Store} {rows : List Row}

/-- The store cuts only the rows of a query with a limit on one table that needs no sort. -/
theorem of_pushedLimit {n : Nat} (h : p.pushedLimit s = some n) :
    p.joins.isEmpty = true ∧ p.order ≠ .inMemory ∧ s.limit = some n := by
  rw [pushedLimit] at h
  split at h
  · rename_i hpushed
    rw [Bool.and_eq_true, Bool.and_eq_true, bne_iff_ne] at hpushed
    exact ⟨hpushed.1.2, hpushed.2, h⟩
  · cases h

/-- A run shows the rows that are held, cut at the cap. -/
theorem run_eq (p : Plan) (s : Select) (store : Store) (maxRows : Nat) :
    (p.run s store maxRows).result
      = (p.held s store).result >>= fun rows => (p.showRows s rows).map (·.take maxRows) := by
  rw [run, held, Reading.result_bind, Reading.result_bind]
  cases (store.fetch p.table p.access p.nativeDirection (p.pushedLimit s)).result with
  | error e => rfl
  | ok source =>
      show (p.joinedRows store source >>= _).result = (p.joinedRows store source).result >>= _
      rw [Reading.result_bind]
      exact congrArg _ (funext fun rows => Reading.result_ofResult_bind _ _)

/-- Where the store neither cuts nor orders, what is held is all that the plan finds. -/
theorem held_eq_found (hcount : p.pushedLimit s = none) (hdirection : p.nativeDirection = none) :
    p.held s store = p.found store := by
  rw [held, found, hcount, hdirection]

/-- Without a count and an order of its own, a plan shows what it found. -/
theorem run_found (hcount : p.pushedLimit s = none) (hdirection : p.nativeDirection = none)
    (maxRows : Nat) : (p.run s store maxRows).result
      = (p.found store).result >>= fun rows => (p.showRows s rows).map (·.take maxRows) := by
  rw [run_eq, held_eq_found hcount hdirection]

/-- The rows that are returned are those held, in order and cut. -/
theorem returned_eq (p : Plan) (s : Select) (store : Store) (maxRows : Nat) :
    (p.returned s store maxRows).result = (p.held s store).result >>= fun rows =>
      (Outcome.ofSort (p.shown s rows)).map (·.take maxRows) := by
  rw [returned, Reading.result_bind]
  exact congrArg _ (funext fun rows => Reading.result_ofResult_bind _ _)

theorem held_missing (ht : store.tables.get? p.table = none) :
    (p.held s store).result = .error (.refused (.ofStore (.tableNotFound p.table))) := by
  rw [held, Reading.result_bind_error (Store.fetch_missing ht _)]

/-- A plain statement shows its rows one by one. -/
theorem showRows_of_isPlain (hplain : s.isPlain = true) (rows : List Row) :
    p.showRows s rows
      = (Outcome.ofSort (p.shown s rows)).map (·.map (projectRow s.columns s.source)) := by
  rw [Select.isPlain, Bool.and_eq_true, Bool.not_eq_true', Bool.not_eq_true'] at hplain
  rw [showRows, hplain.1, hplain.2, showPlain, shown]
  cases p.ordered s rows <;> rfl

/-- A plain query shows the rows that it returns, each projected. -/
theorem run_eq_returned (hplain : s.isPlain = true) (maxRows : Nat) :
    (p.run s store maxRows).result
      = (p.returned s store maxRows).result.map (·.map (projectRow s.columns s.source)) := by
  rw [run_eq, returned_eq]
  cases (p.held s store).result with
  | error e => rfl
  | ok rows =>
      show (p.showRows s rows).map _ = ((Outcome.ofSort (p.shown s rows)).map _).map _
      rw [showRows_of_isPlain hplain]
      cases p.shown s rows with
      | none => rfl
      | some shown => exact congrArg Except.ok List.map_take.symm

/-- To order rows neither adds nor drops any. -/
theorem ordered_perm {sorted : List Row} (h : p.ordered s rows = some sorted) :
    sorted.Perm rows := by
  rw [ordered] at h
  split at h
  · exact sortRows_perm h
  · exact .of_eq (Option.some.inj h).symm

/-- What is shown is, but for the order and the cut, what is held. -/
theorem shown_perm {shown : List Row} (h : p.shown s rows = some shown)
    (hlength : ∀ n, s.limit = some n → rows.length ≤ n) : shown.Perm rows := by
  obtain ⟨sorted, hsorted, rfl⟩ := Option.map_eq_some_iff.mp h
  have hperm := ordered_perm hsorted
  cases hlimit : s.limit with
  | none => exact hperm
  | some n =>
      rw [cutAt, Option.elim_some, List.take_of_length_le
        (hperm.length_eq.trans_le (hlength n hlimit))]
      exact hperm

/-- What is shown was held. -/
theorem shown_subset {shown : List Row} (h : p.shown s rows = some shown) : shown ⊆ rows := by
  obtain ⟨sorted, hsorted, rfl⟩ := Option.map_eq_some_iff.mp h
  refine fun row hrow => (ordered_perm hsorted).subset ?_
  cases hlimit : s.limit with
  | none =>
      rw [hlimit] at hrow
      exact hrow
  | some n =>
      rw [hlimit] at hrow
      exact List.mem_of_mem_take hrow

/-- What a plain query returns is among what is held after the joins. -/
theorem exists_held_of_returned {maxRows : Nat} {out : List Row}
    (h : (p.returned s store maxRows).result = .ok out) :
    ∃ rows, (p.held s store).result = .ok rows ∧ out ⊆ rows := by
  rw [returned_eq] at h
  obtain ⟨rows, hrows, h⟩ := bind_eq_ok_iff.mp h
  obtain ⟨shown, hshown, rfl⟩ := map_eq_ok_iff.mp h
  exact ⟨rows, hrows, fun row hrow =>
    shown_subset (Outcome.ofSort_eq_ok_iff.mp hshown) (List.mem_of_mem_take hrow)⟩

-- ── One table ───────────────────────────────────────────────────────────────

/-- The store arranges first, and then the engine. -/
theorem arranged_eq (p : Plan) (s : Select) (rows : List Row) :
    p.arranged s rows = (p.access.arrange p.nativeDirection rows).bind (p.ordered s) := by
  obtain ⟨table, access, order, joins, postJoinFilter, limit⟩ := p
  cases order with
  | inMemory => rfl
  | unordered | native => exact (Option.bind_fun_some _).symm

/-- Neither of them adds or drops any. -/
theorem arranged_perm {rows out : List Row} (h : p.arranged s rows = some out) :
    out.Perm rows := by
  rw [arranged_eq] at h
  obtain ⟨read, hread, hsorted⟩ := Option.bind_eq_some_iff.mp h
  exact (ordered_perm hsorted).trans (AccessPath.arrange_perm hread)

/-- On a single table what is read is held. -/
theorem held_single (hjoins : p.joins = []) : (p.held s store).result
    = (store.fetch p.table p.access p.nativeDirection (p.pushedLimit s)).result := by
  have hjoined : ∀ rows, p.joinedRows store rows = pure rows := by
    intro rows
    rw [joinedRows, hjoins]
    rfl
  rw [held, Reading.result_bind]
  simp only [hjoined]
  cases (store.fetch p.table p.access p.nativeDirection (p.pushedLimit s)).result <;> rfl

/-- A plain query on a single table returns the first of the rows that meet its conditions,
    as they are arranged. -/
theorem returned_single {t : StoredTable} {conditions : List Condition} {n : Nat}
    (ht : store.tables.get? p.table = some t) (hserves : p.access.Serves t conditions)
    (hjoins : p.joins = []) (hlimit : s.limit = some n) (maxRows : Nat) :
    (p.returned s store maxRows).result = Outcome.ofSort
      ((p.arranged s (t.rows.filter fun row => conditions.all (·.toFilter.holds row))).map
        (·.take (min n maxRows))) := by
  obtain ⟨q, hfetch, hrows⟩ := hserves.fetch ht p.nativeDirection
  have htake : ∀ sorted : List Row, (sorted.take n).take maxRows
      = sorted.take (min maxRows n) := fun sorted => List.take_take
  rw [returned_eq, held_single hjoins, hfetch, arranged_eq, ← hrows, Nat.min_comm]
  by_cases horder : p.order = .inMemory
  · have hcount : p.pushedLimit s = none := by
      rw [pushedLimit, horder]
      exact if_neg (by simp)
    rw [hcount, Scan.take_none]
    cases q.rows with
    | none => rfl
    | some rows =>
        show (Outcome.ofSort (p.shown s rows)).map _ = Outcome.ofSort ((p.ordered s rows).map _)
        rw [shown, hlimit]
        cases p.ordered s rows with
        | none => rfl
        | some sorted => exact congrArg Except.ok (htake sorted)
  · have hshown : ∀ rows, p.shown s rows = some (rows.take n) := by
      intro rows
      rw [shown, ordered, if_neg horder, hlimit]
      rfl
    have hordered : p.ordered s = some := funext fun rows => if_neg horder
    rw [hordered, Option.bind_fun_some]
    cases hcount : p.pushedLimit s with
    | none =>
        rw [Scan.take_none]
        cases q.rows with
        | none => rfl
        | some rows =>
            show (Outcome.ofSort (p.shown s rows)).map _ = _
            rw [hshown]
            exact congrArg Except.ok (htake rows)
    | some m =>
        -- the store has cut at the same limit
        have hm : m = n := by
          rw [pushedLimit] at hcount
          split at hcount
          · rw [hlimit] at hcount
            exact (Option.some.inj hcount).symm
          · exact nomatch hcount
        rw [hm, Scan.take]
        cases q.rows with
        | none => rfl
        | some rows =>
            show (Outcome.ofSort (p.shown s (rows.take n))).map _ = _
            have hcut : (rows.take n).take n = rows.take n := by rw [List.take_take, Nat.min_self]
            rw [hshown, hcut]
            exact congrArg Except.ok (htake rows)

end Plan

-- ── Plain queries of an engine ──────────────────────────────────────────────

/-- An accepted plain query was prepared by some schema, the store's own if the engine's
    snapshot is current. It has its own limit or else the host's cap, and shows the rows that
    it returns, each projected. -/
theorem Engine.prepare_plain {s : Select} {e : Engine} {db : Database} {p : Prepared}
    (h : (e.prepare db s).1 = .ok p) (hplain : s.isPlain = true) :
    ∃ schema, (e.IsCurrent db → schema = db.store.schema) ∧
      prepareWith e.limits schema s = .ok p ∧
      p.query = { s with limit := some (s.limit.getD e.limits.maxRows) } ∧
      (e.executeQuery db s).1 = (p.plan.returned p.query db.store e.limits.maxRows).result.map
        (·.map (projectRow s.columns s.source)) := by
  obtain ⟨schema, hschema, hruns⟩ := exists_schema h
  obtain ⟨hprepare, hrun⟩ := hruns s
  rw [h] at hprepare
  obtain ⟨-, hlimits, -, -⟩ := prepareWith_eq_ok.mp hprepare.symm
  obtain ⟨hquery, hlimit⟩ := Limits.enforce_eq_ok hlimits
  rw [hlimit hplain] at hquery
  refine ⟨schema, hschema, hprepare.symm, hquery, ?_⟩
  have hplain' : p.query.isPlain = true := by
    rw [hquery]
    exact hplain
  rw [hrun, ← hprepare]
  refine (Plan.run_eq_returned hplain' _).trans ?_
  rw [hquery]

end DocQuery
