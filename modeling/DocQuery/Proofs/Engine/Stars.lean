import DocQuery.Proofs.Engine.Columns
import DocQuery.Proofs.Engine.Merged
import DocQuery.Proofs.Statement.Names

/-!
# What the stars of a query show

`*` shows the rows that a query holds as they are, so the star of a table is compared with it on
the same rows.

* `tableStar_joined` — in a query with joins `t.*` gives back the stored row of `t` that was
  joined, and these rows together make up what `*` shows;
* `tableStar_eq_star_iff` — on one table it shows what `*` shows just if no name in the rows has a
  point in it, for such a name is taken for another table's (`tableStar_drops`).
-/

namespace DocQuery

variable {e : Engine} {db : Database} {s : Select} {p : Prepared}

/-- With a star instead of its columns an accepted plain query shows the rows that it returns. -/
theorem Engine.executeQuery_star (hprepared : (e.prepare db s).1 = .ok p)
    (hplain : s.isPlain = true) :
    (e.executeQuery db (s.withColumns [.star])).1
      = (p.plan.returned p.query db.store e.limits.maxRows).result := by
  rw [(executeQuery_withColumns hprepared hplain s.mayShow_star).2]
  have hstar : (List.map (projectRow [.star] s.source)) = id := by
    funext rows
    exact (List.map_congr_left fun row _ => projectRow_star s.source row).trans (List.map_id rows)
  rw [hstar, Except.map_id]
  rfl

-- ── One table ───────────────────────────────────────────────────────────────

/-- **The star of the only table shows what `*` shows** where no name has a point. A query on one
    table that is accepted with the table's star is accepted with `*`, and both show the same
    stored rows. The results are the same just if no name in these rows has a
    point. -/
theorem tableStar_eq_star_iff (hprepared : (e.prepare db s).1 = .ok p)
    (hplain : s.isPlain = true) (hjoins : s.joins = [])
    (hcolumns : s.columns = [.tableStar s.source]) :
    e.Accepts db (s.withColumns [.star]) ∧
    (e.executeQuery db s).1 = (e.executeQuery db (s.withColumns [.star])).1.map
      (·.map (projectRow [.tableStar s.source] s.source)) ∧
    ∀ rows, (e.executeQuery db (s.withColumns [.star])).1 = .ok rows →
      (∀ row ∈ rows, ∃ t, db.store.tables.get? s.source = some t ∧ row ∈ t.rows) ∧
      ((e.executeQuery db s).1 = .ok rows ↔ ∀ row ∈ rows, row.HasPlainNames) := by
  obtain ⟨schema, -, hprepare, hquery, hrun⟩ := Engine.prepare_plain hprepared hplain
  obtain ⟨-, -, -, hplan⟩ := Engine.prepareWith_eq_ok.mp hprepare
  have hstar := Engine.executeQuery_star hprepared hplain
  rw [hcolumns, ← hstar] at hrun
  refine ⟨⟨_, (Engine.executeQuery_withColumns hprepared hplain s.mayShow_star).1⟩, hrun, ?_⟩
  intro rows hrows
  constructor
  · rw [hstar] at hrows
    obtain ⟨held, hheld, hsubset⟩ := Plan.exists_held_of_returned hrows
    obtain ⟨read, hread, hheld⟩ := Reading.result_bind_eq_ok hheld
    intro row hrow
    rw [hquery] at hplan
    exact Select.mem_of_held_single hplan hjoins hread hheld (hsubset hrow)
  · rw [hrun, hrows]
    have hsame : rows.map (projectRow [.tableStar s.source] s.source) = rows
        ↔ ∀ row ∈ rows, projectRow [.tableStar s.source] s.source row = row := by
      conv_lhs => rw [← List.map_id rows, List.map_map, List.map_inj_left]
      rfl
    rw [Except.map, Except.ok.injEq, hsame]
    exact forall₂_congr fun row _ => projectRow_tableStar_iff s.source row

/-- Columns of all users. -/
def Select.sampleUsers (columns : List Column) : Select :=
  { columns := columns
    source := "users"
    indexHint := none
    joins := []
    filter := none
    groupBy := []
    having := none
    orderBy := []
    limit := none }

theorem tableStar_eq_star_iff_sample : ∃ rows,
    (Engine.sample.executeQuery Database.sample (.sampleUsers [.star])).1 = .ok rows ∧
    rows.length = 3 ∧
    (Engine.sample.executeQuery Database.sample (.sampleUsers [.tableStar "users"])).1
      = .ok rows := by
  have hcount : (Engine.sample.executeQuery Database.sample (.sampleUsers [.star])).1.map
      List.length = .ok 3 := eq_ok_of_toOption (by decide +kernel)
  obtain ⟨rows, hrows, hlength⟩ := map_eq_ok_iff.mp hcount
  have hisOk : (Engine.sample.prepare Database.sample
      (.sampleUsers [.tableStar "users"])).1.isOk = true := by decide +kernel
  obtain ⟨p, hp⟩ := exists_eq_ok_of_isOk hisOk
  obtain ⟨-, -, hsame⟩ := tableStar_eq_star_iff hp rfl rfl rfl
  obtain ⟨hstored, hiff⟩ := hsame rows hrows
  refine ⟨rows, hrows, hlength, hiff.mpr ?_⟩
  intro row hrow
  obtain ⟨t, ht, hmem⟩ := hstored row hrow
  exact (Store.reachable_sample.mono fun _ h => h.2).plain ht row hmem

/-- The star of the only table drops fields: of two users it shows nothing but what stands under
    the table's name, of the third it leaves a field out. -/
theorem tableStar_drops :
    Database.sampleDotted.store.Reachable Document.IsJson ∧
    (Engine.sample.execute Database.sampleDotted "SELECT * FROM users").1.map (·.map Keyed.keys)
      = .ok [["name", "age", "users.age", "_id", "_creationTime"],
          ["name", "users.age", "_id", "_creationTime"],
          ["name", "a.b", "_id", "_creationTime"]] ∧
    (Engine.sample.execute Database.sampleDotted "SELECT users.* FROM users").1.map
        (·.map Keyed.keys)
      = .ok [["age"], ["age"], ["name", "_id", "_creationTime"]] :=
  ⟨Store.reachable_sampleDotted, eq_ok_of_toOption (by decide +kernel),
    eq_ok_of_toOption (by decide +kernel)⟩

-- ── Several tables ──────────────────────────────────────────────────────────

/-- **The star of a joined table shows the stored row that was joined**, for each row that `*`
    shows: all its fields under their own names and nothing else. Joined again, the stored rows of
    the tables are what `*` shows. -/
theorem tableStar_joined {text : String} (hstore : db.store.Reachable Document.IsJson)
    (htext : Select.ofText text = .ok s) (hplain : s.isPlain = true) (hjoins : s.joins ≠ [])
    (hprepared : (e.prepare db s).1 = .ok p) :
    (e.IsCurrent db → (e.executeQuery db s).1.Granted ∧
      (db.store.Sortable → ∃ held, (p.plan.held p.query db.store).result = .ok held ∧
        (p.plan.Sorts p.query held → ∃ result, (e.executeQuery db s).1 = .ok result))) ∧
    ∀ result, (e.executeQuery db s).1 = .ok result → ∃ merged,
      (e.executeQuery db (s.withColumns [.star])).1 = .ok merged ∧
      result = merged.map (projectRow s.columns s.source) ∧
      (∀ t ∈ s.tables, (e.executeQuery db (s.withColumns [.tableStar t])).1
        = .ok (merged.map (projectRow [.tableStar t] s.source))) ∧
      (∀ row ∈ merged,
        (∀ t ∈ s.tables, ∃ stored, db.store.tables.get? t = some stored ∧
          projectRow [.tableStar t] s.source row ∈ stored.rows) ∧
        row = Row.joined s.tables fun t => projectRow [.tableStar t] s.source row) ∧
      ∀ row ∈ merged, ∀ row' ∈ merged,
        (∀ t ∈ s.tables, projectRow [.tableStar t] s.source row
          = projectRow [.tableStar t] s.source row') → row = row' := by
  obtain ⟨schema, hschema, hprepare, hquery, hrun⟩ := Engine.prepare_plain hprepared hplain
  obtain ⟨-, -, hcheck, hplan⟩ := Engine.prepareWith_eq_ok.mp hprepare
  rw [hquery] at hcheck hplan
  have hnames := (Select.plainNames_ofText htext).tables
  have hnodup : s.tables.Nodup := (Select.check_eq_ok hcheck).nodup
  have hstar := Engine.executeQuery_star hprepared hplain
  constructor
  · intro hcurrent
    obtain ⟨schema', -, hruns⟩ := Engine.exists_schema hprepared
    rw [hschema hcurrent] at hprepare
    rw [(hruns s).2, ← (hruns s).1, hprepared]
    have hanswered := Engine.answered_of_prepareWith hprepare
    exact ⟨hanswered.granted_run e.limits.maxRows,
      fun hsortable => hanswered.exists_run hsortable e.limits.maxRows⟩
  · intro result hresult
    rw [hrun] at hresult
    obtain ⟨merged, hmerged, rfl⟩ := map_eq_ok_iff.mp hresult
    obtain ⟨held, hheld, hsubset⟩ := Plan.exists_held_of_returned hmerged
    obtain ⟨read, hread, hheld⟩ := Reading.result_bind_eq_ok hheld
    have hfrom : ∀ row ∈ merged, row.MergedFrom db.store s.tables := fun row hrow =>
      Select.mergedFrom_of_held hplan hnodup hstore hjoins hread hheld row (hsubset hrow)
    have hjoined : ∀ row ∈ merged,
        (∀ t ∈ s.tables, ∃ stored, db.store.tables.get? t = some stored ∧
          projectRow [.tableStar t] s.source row ∈ stored.rows) ∧
        row = Row.joined s.tables fun t => projectRow [.tableStar t] s.source row := by
      intro row hrow
      obtain ⟨doc, hdoc, rfl⟩ := hfrom row hrow
      have hback : ∀ t ∈ s.tables, projectRow [.tableStar t] s.source (Row.joined s.tables doc)
          = doc t := fun t ht => projectRow_tableStar_joined hnames hnodup ht doc s.source
      refine ⟨?_, Row.joined_congr fun t ht => (hback t ht).symm⟩
      intro t ht
      rw [hback t ht]
      exact hdoc t ht
    refine ⟨merged, hstar.trans hmerged, rfl, ?_, hjoined, ?_⟩
    · intro t ht
      rw [(Engine.executeQuery_withColumns hprepared hplain (Select.mayShow_tableStar ht)).2,
        hmerged]
      rfl
    · intro row hrow row' hrow' hsame
      rw [(hjoined row hrow).2, (hjoined row' hrow').2]
      exact Row.joined_congr hsame

/-- The users with what the other table has of them. -/
def Select.sampleOwners : Select :=
  { columns := [.field (some "users") "name" none]
    source := "users"
    indexHint := none
    joins := [⟨"user", none, [⟨"users", "name", "user", "owner"⟩]⟩]
    filter := none
    groupBy := []
    having := none
    orderBy := []
    limit := none }

theorem tableStar_joined_sample : ∃ merged,
    (Engine.sample.executeQuery Database.sampleDotted
      (Select.sampleOwners.withColumns [.star])).1 = .ok merged ∧
    merged.map Keyed.keys = [["users.name", "users.age", "users.users.age", "users._id",
      "users._creationTime", "user.owner", "user.users.name", "user.", "user._id",
      "user._creationTime"]] ∧
    ∀ row ∈ merged,
      (∀ t ∈ ["users", "user"], ∃ stored, Store.sampleDotted.tables.get? t = some stored ∧
        projectRow [.tableStar t] "users" row ∈ stored.rows) ∧
      row = Row.joined ["users", "user"] fun t => projectRow [.tableStar t] "users" row := by
  have htext : Select.ofText "SELECT users.name FROM users JOIN user ON users.name = user.owner"
      = .ok .sampleOwners := eq_ok_of_toOption (by decide +kernel)
  have hkeys : (Engine.sample.executeQuery Database.sampleDotted
      (Select.sampleOwners.withColumns [.star])).1.map (·.map Keyed.keys)
      = .ok [["users.name", "users.age", "users.users.age", "users._id", "users._creationTime",
          "user.owner", "user.users.name", "user.", "user._id", "user._creationTime"]] :=
    eq_ok_of_toOption (by decide +kernel)
  have hisOk : (Engine.sample.prepare Database.sampleDotted Select.sampleOwners).1.isOk = true := by
    decide +kernel
  obtain ⟨p, hp⟩ := exists_eq_ok_of_isOk hisOk
  have hisOk : (Engine.sample.executeQuery Database.sampleDotted
      Select.sampleOwners).1.isOk = true := by decide +kernel
  obtain ⟨result, hresult⟩ := exists_eq_ok_of_isOk hisOk
  obtain ⟨merged, hmerged, -, -, hjoined, -⟩ := (tableStar_joined Store.reachable_sampleDotted htext
    rfl (List.cons_ne_nil _ _) hp).2 result hresult
  rw [hmerged] at hkeys
  exact ⟨merged, hmerged, Except.ok.inj hkeys, hjoined⟩

end DocQuery
