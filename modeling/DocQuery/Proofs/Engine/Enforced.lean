import DocQuery.Proofs.Engine.Limit

/-!
# Limits that are enforced twice

A host may enforce its limits on a query and then run what they made of it, which enforces them
again. What they write is their own cap, and what they check is the largest limit that may be
written; nothing relates the two. So a query is kept by the second time just if its limit is
allowed (`Limits.enforce_enforced`), which one that the limits wrote is unless the cap is the
greater of the two (`Limits.allows_iff`).

* `executeQuery_enforced` — run again, the query gives what it gave, or is refused for its limit;
* `default_limit_refused` — a cap above the largest limit is written and then refused.
-/

namespace DocQuery

variable {s q : Select}

-- ── The second time ─────────────────────────────────────────────────────────

namespace Limits

variable {l : Limits}

/-- The limit of the query, if it has one, is not too large. -/
def Allows (l : Limits) (s : Select) : Prop :=
  ∀ n, s.limit = some n → n ≤ l.maxLimit

/-- A query with a limit is kept or refused for it. -/
theorem enforce_limited {n : Nat} (hlimit : s.limit = some n) : l.enforce s =
    if l.maxLimit < n then .error (.limitExceeded n l.maxLimit) else .ok s := by
  rw [enforce, hlimit]

/-- A query is kept by the second time if its limit is allowed. -/
theorem enforce_enforced (h : l.enforce s = .ok q) (hallows : l.Allows q) :
    l.enforce q = .ok q := by
  cases hlimit : q.limit with
  | some n => rw [enforce_limited hlimit, if_neg (hallows n hlimit).not_gt]
  | none =>
      cases hplain : s.isPlain with
      | false =>
          obtain rfl := eq_of_enforce hplain h
          exact h
      | true =>
          rw [(enforce_eq_ok h).2 hplain] at hlimit
          exact nomatch hlimit

/-- A limit that was given has been checked. -/
theorem limit_of_enforce {n : Nat} (h : l.enforce s = .ok q) (hlimit : s.limit = some n) :
    q = s ∧ n ≤ l.maxLimit := by
  rw [enforce_limited hlimit] at h
  split at h
  · exact nomatch h
  · rename_i hle
    exact ⟨(Except.ok.inj h).symm, Nat.le_of_not_lt hle⟩

/-- A plain query without a limit gets the cap. -/
theorem limit_of_enforce_plain (h : l.enforce s = .ok q) (hnone : s.limit = none)
    (hplain : s.isPlain = true) : q.limit = some l.maxRows := by
  rw [(enforce_eq_ok h).2 hplain, hnone, Option.getD_none]

/-- What the limits leave has an allowed limit, unless they wrote it and their cap is too large. -/
theorem allows_iff (h : l.enforce s = .ok q) :
    l.Allows q ↔ l.maxRows ≤ l.maxLimit ∨ s.limit ≠ none ∨ s.isPlain = false := by
  constructor
  · intro hallows
    by_cases hnone : s.limit = none
    · cases hplain : s.isPlain with
      | false => exact Or.inr (Or.inr rfl)
      | true => exact Or.inl (hallows _ (limit_of_enforce_plain h hnone hplain))
    · exact Or.inr (Or.inl hnone)
  · intro hcases n hn
    cases hlimit : s.limit with
    | some m =>
        obtain ⟨rfl, hle⟩ := limit_of_enforce h hlimit
        rw [← Option.some.inj (hlimit.symm.trans hn)]
        exact hle
    | none =>
        cases hplain : s.isPlain with
        | false =>
            rw [eq_of_enforce hplain h, hlimit] at hn
            exact nomatch hn
        | true =>
            rw [limit_of_enforce_plain h hlimit hplain] at hn
            rw [← Option.some.inj hn]
            refine hcases.resolve_right ?_
            rintro (hsome | hother)
            · exact hsome hlimit
            · exact nomatch hplain.symm.trans hother

end Limits

-- ── Running again ───────────────────────────────────────────────────────────

namespace Engine

variable {e : Engine} {schema : Schema}

/-- Limits do not touch the tables of a query. -/
theorem checkTables_of_enforce {l : Limits} (h : l.enforce s = .ok q) :
    q.checkTables schema = s.checkTables schema := by
  rw [(Limits.enforce_eq_ok h).1]
  rfl

/-- What is the same to the limits is prepared alike. -/
theorem prepareWith_enforced {l : Limits} (h : l.enforce s = .ok q) (hq : l.enforce q = .ok q) :
    prepareWith l schema q = prepareWith l schema s := by
  rw [prepareWith, prepareWith, checkTables_of_enforce h, h, hq]

/-- A query that the limits refuse is not run. -/
theorem executeQuery_of_enforce_error {error : QueryError} (h : e.limits.enforce q = .error error)
    (db : Database) : ∃ error', (e.executeQuery db q).1 = .error (.refused error') := by
  have hprepared : ∀ schema, ∃ error', prepareWith e.limits schema q = .error error' := by
    intro schema
    rw [prepareWith, h]
    cases q.checkTables schema with
    | error error' => exact ⟨error', rfl⟩
    | ok _ => exact ⟨error, rfl⟩
  rw [executeQuery, prepare]
  cases e.snapshot.get db with
  | mk schema? rest =>
      cases schema? with
      | error error' => exact ⟨_, rfl⟩
      | ok schema =>
          obtain ⟨error', herror⟩ := hprepared schema
          dsimp only
          rw [herror]
          exact ⟨error', rfl⟩

/-- **Limits may be enforced twice**, if they allow what they write. They do so but for a plain
    query without a limit when the cap on rows is above the largest limit; and then what they left
    is a query that they keep, and that runs as the one they were given, on every database and
    with every snapshot. Otherwise they wrote the cap, and the second time refuses it. -/
theorem executeQuery_enforced (h : e.limits.enforce s = .ok q) :
    (e.limits.Allows q ↔
      e.limits.maxRows ≤ e.limits.maxLimit ∨ s.limit ≠ none ∨ s.isPlain = false) ∧
    (e.limits.Allows q → e.limits.enforce q = .ok q ∧
      ∀ db, e.executeQuery db q = e.executeQuery db s) ∧
    (¬ e.limits.Allows q → q.limit = some e.limits.maxRows ∧
      e.limits.enforce q = .error (.limitExceeded e.limits.maxRows e.limits.maxLimit) ∧
      ∀ db, ∃ error, (e.executeQuery db q).1 = .error (.refused error)) := by
  have hallows := Limits.allows_iff h
  refine ⟨hallows, ?_, ?_⟩
  · intro hlimit
    have hq := Limits.enforce_enforced h hlimit
    refine ⟨hq, fun db => ?_⟩
    have hprepare : e.prepare db q = e.prepare db s := by
      rw [prepare, prepare]
      simp only [prepareWith_enforced h hq]
    rw [executeQuery, executeQuery, hprepare]
  · intro hlimit
    rw [hallows, not_or, not_or, not_not, Bool.not_eq_false] at hlimit
    obtain ⟨hlt, hnone, hplain⟩ := hlimit
    have hwritten := Limits.limit_of_enforce_plain h hnone hplain
    have hrefused : e.limits.enforce q
        = .error (.limitExceeded e.limits.maxRows e.limits.maxLimit) := by
      rw [Limits.enforce_limited hwritten, if_pos (Nat.lt_of_not_le hlt)]
    exact ⟨hwritten, hrefused, executeQuery_of_enforce_error hrefused⟩

theorem executeQuery_enforced_sample :
    Engine.sample.limits.enforce Select.sampleOrdered
      = .ok (Select.sampleOrdered.withLimit (some 1000)) ∧
    Engine.sample.executeQuery Database.sample (Select.sampleOrdered.withLimit (some 1000))
      = Engine.sample.executeQuery Database.sample Select.sampleOrdered ∧
    (Engine.sample.executeQuery Database.sample Select.sampleOrdered).1.toOption.map List.length
      = some 2 := by
  have henforce : Engine.sample.limits.enforce Select.sampleOrdered
      = .ok (Select.sampleOrdered.withLimit (some 1000)) := rfl
  obtain ⟨hallows, hsame, -⟩ := executeQuery_enforced henforce
  obtain ⟨-, hrun⟩ := hsame (hallows.mpr (Or.inl (by decide)))
  exact ⟨henforce, hrun Database.sample, by decide +kernel⟩

/-- An engine whose cap on rows is above its largest limit. -/
def sampleCrossed : Engine :=
  ⟨⟨5, 2, false, []⟩, .none⟩

/-- The limit that such limits write is one that they do not allow. -/
theorem default_limit_refused : ∃ q rows,
    sampleCrossed.limits.enforce Select.sampleOrdered = .ok q ∧
    (sampleCrossed.executeQuery Database.sample Select.sampleOrdered).1 = .ok rows ∧
    (sampleCrossed.executeQuery Database.sample q).1
      = .error (.refused (.limitExceeded 5 2)) ∧
    ¬ sampleCrossed.limits.Allows q := by
  obtain ⟨rows, hrows⟩ := exists_eq_ok_of_isOk
    (show (sampleCrossed.executeQuery Database.sample Select.sampleOrdered).1.isOk = true by
      decide +kernel)
  refine ⟨Select.sampleOrdered.withLimit (some 5), rows, rfl, hrows, by rfl, ?_⟩
  intro hallows
  exact absurd (hallows 5 rfl) (by decide)

end Engine

end DocQuery
