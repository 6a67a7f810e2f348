import DocQuery.Engine.Session
import DocQuery.Proofs.Except

/-!
# One snapshot for a whole run

An engine asks its database for the schema, and the database may refuse; between its queries tables
come and indexes change. What one command does to the engine is said by `Session.requests_of_asks`
and `Session.requests_of_known`: a query that reads asks once if no schema is known, and a command
of any other kind asks for nothing. So along a run the engine keeps the first schema that it got
(`Session.engine_run`), and asks until it has one and then no more.

* `oneSnapshot_run` — the requests of a run, what a failed one does, and what a schema is good for.
-/

namespace DocQuery

-- ── Commands and answers ────────────────────────────────────────────────────

namespace Command

/-- The text that the engine of the session is given. -/
def text? : Command → Option String
  | .execute source | .outcome source | .explain source => some source
  | _ => none

/-- The engine is given a text that reads as a query. -/
def Asks (c : Command) (q : Select) : Prop :=
  ∃ source, c.text? = some source ∧ Select.ofText source = .ok q

/-- The session goes on with the engine that it has. -/
def keepsEngine : Command → Bool
  | .newEngine _ _ => false
  | _ => true

end Command

/-- The error that an engine reports. -/
def Answer.error? : Answer → Option QueryError
  | .rows (.error (.refused e)) _ | .outcome (.error (.refused e)) | .plan (.error e) _ => some e
  | _ => none

-- ── Preparing with a schema and without ─────────────────────────────────────

/-- A request gives the schema of the store, or none is available. -/
theorem Database.readSchema_cases (db : Database) :
    db.readSchema.1 = .ok db.store.schema ∨ db.readSchema.1 = .error .unavailable := by
  rw [readSchema]
  by_cases hout : db.outages = 0
  · exact Or.inl (by rw [if_pos hout])
  · exact Or.inr (by rw [if_neg hout])

theorem Database.schemaReads_readSchema (db : Database) :
    db.readSchema.2.schemaReads = db.schemaReads + 1 := by
  rw [readSchema]
  dsimp only
  split <;> rfl

namespace Engine

variable {e : Engine} {db : Database} {q : Select}

/-- The engine with a snapshot of a schema, or with none. -/
def withSchema (e : Engine) (schema : Option Schema) : Engine :=
  { e with snapshot := ⟨schema⟩ }

/-- With a schema an engine asks for nothing. -/
theorem prepare_known {schema : Schema} (h : e.snapshot.schema = some schema) (db : Database)
    (q : Select) : e.prepare db q = (prepareWith e.limits schema q, e, db) := by
  have hget : e.snapshot.get db = (.ok schema, e.snapshot, db) := by
    rw [Snapshot.get, h]
  rw [prepare, hget]

/-- Without a schema an engine asks once, and what it is refused is its error. -/
theorem prepare_unknown (h : e.snapshot.schema = none) (db : Database) (q : Select) :
    (e.prepare db q).2 = (e.withSchema db.readSchema.1.toOption, db.readSchema.2) ∧
      ∀ error, db.readSchema.1 = .error error → (e.prepare db q).1 = .error (.ofStore error) := by
  rcases hread : db.readSchema with ⟨error | schema, db'⟩
  · have hget : e.snapshot.get db = (.error error, e.snapshot, db') := by
      rw [Snapshot.get, h, hread]
    have hnone : e.snapshot = ⟨none⟩ := congrArg Snapshot.mk h
    rw [prepare, hget, hnone]
    refine ⟨rfl, ?_⟩
    rintro _ ⟨⟩
    rfl
  · have hget : e.snapshot.get db = (.ok schema, ⟨some schema⟩, db') := by
      rw [Snapshot.get, h, hread]
    rw [prepare, hget]
    exact ⟨rfl, fun _ h => (nomatch h)⟩

/-- To run a query is to prepare it and then to read. -/
theorem executeQuery_prepared (e : Engine) (db : Database) (q : Select) :
    (e.executeQuery db q).2.1 = (e.prepare db q).2.1 ∧
      (e.executeQuery db q).2.2.schemaReads = (e.prepare db q).2.2.schemaReads ∧
      ∀ error, (e.prepare db q).1 = .error error →
        (e.executeQuery db q).1 = .error (.refused error) := by
  rw [executeQuery]
  rcases e.prepare db q with ⟨error | p, e', db'⟩
  · exact ⟨rfl, rfl, fun _ h => congrArg (Except.error ∘ Failure.refused) (Except.error.inj h)⟩
  · exact ⟨rfl, rfl, fun _ h => (nomatch h)⟩

end Engine

namespace Session

variable {s : Session} {c : Command} {q : Select} {source : String}

-- ── One command ─────────────────────────────────────────────────────────────

/-- A query that reads is prepared by the engine, and what refuses it is the answer. -/
theorem step_of_asks (h : c.Asks q) :
    (s.step c).1.engine = (s.engine.prepare s.database q).2.1 ∧
      (s.step c).1.database.schemaReads = (s.engine.prepare s.database q).2.2.schemaReads ∧
      ∀ error, (s.engine.prepare s.database q).1 = .error error →
        (s.step c).2.error? = some error := by
  obtain ⟨source, htext, hread⟩ := h
  obtain ⟨hengine, hreads, herror⟩ := s.engine.executeQuery_prepared s.database q
  have hexecute : s.engine.execute s.database source = s.engine.executeQuery s.database q := by
    rw [Engine.execute, hread]
  have hexplain : s.engine.explain s.database source
      = (((s.engine.prepare s.database q).1).map Prepared.plan,
        (s.engine.prepare s.database q).2) := by
    rw [Engine.explain, hread]
  cases c with
  | execute _ =>
      obtain rfl := Option.some.inj htext
      rw [step, hexecute]
      refine ⟨hengine, hreads, fun error h => ?_⟩
      show Answer.error? (.rows (s.engine.executeQuery s.database q).1 _) = _
      rw [herror error h]
      rfl
  | outcome _ =>
      obtain rfl := Option.some.inj htext
      rw [step, hexecute]
      refine ⟨hengine, hreads, fun error h => ?_⟩
      show Answer.error? (.outcome (s.engine.executeQuery s.database q).1) = _
      rw [herror error h]
      rfl
  | explain _ =>
      obtain rfl := Option.some.inj htext
      rw [step, hexplain]
      refine ⟨rfl, rfl, fun error h => ?_⟩
      show Answer.error? (.plan (((s.engine.prepare s.database q).1).map _) _) = _
      rw [h]
      rfl
  | _ => exact nomatch htext

/-- A text that does not read leaves the session as it is. -/
theorem step_of_unread {error : QueryError} (htext : c.text? = some source)
    (hread : Select.ofText source = .error error) : (s.step c).1 = s := by
  have hexecute : s.engine.execute s.database source
      = (.error (.refused error), s.engine, s.database) := by
    rw [Engine.execute, hread]
  have hexplain : s.engine.explain s.database source = (.error error, s.engine, s.database) := by
    rw [Engine.explain, hread]
  cases c with
  | execute _ =>
      obtain rfl := Option.some.inj htext
      rw [step, hexecute]
  | outcome _ =>
      obtain rfl := Option.some.inj htext
      rw [step, hexecute]
  | explain _ =>
      obtain rfl := Option.some.inj htext
      rw [step, hexplain]
  | _ => exact nomatch htext

/-- A command for another than the engine leaves the engine as it is. -/
theorem engine_step_of_other (h : c.text? = none) (hkeep : c.keepsEngine = true) :
    (s.step c).1.engine = s.engine := by
  cases c with
  | execute _ | outcome _ | explain _ => exact nomatch h
  | newEngine _ _ => exact nomatch hkeep
  | defineIndex table index fields =>
      rw [step]
      split <;> rfl
  | select source limits =>
      rw [step]
      split <;> rfl
  | scan table parts count late =>
      rw [step, runScan]
      split
      · rfl
      · dsimp only
        split <;> rfl
  | _ => rfl

/-- The requests for the schema that the engine makes in a command: as many as the database counts
    meanwhile, with the answer that it gives. -/
def requests (s : Session) (c : Command) : List (Except StoreError Schema) :=
  match c.text? with
  | none => []
  | some _ => List.replicate ((s.step c).1.database.schemaReads - s.database.schemaReads)
      s.database.readSchema.1

theorem requests_eq_nil (h : (s.step c).1.database.schemaReads = s.database.schemaReads) :
    s.requests c = [] := by
  rw [requests, h, Nat.sub_self]
  cases c.text? <;> rfl

/-- A command that is no query asks for nothing. -/
theorem requests_of_not_asks (h : ∀ q, ¬ c.Asks q) (hkeep : c.keepsEngine = true) :
    s.requests c = [] ∧ (s.step c).1.engine = s.engine := by
  cases htext : c.text? with
  | none =>
      refine ⟨?_, engine_step_of_other htext hkeep⟩
      rw [requests, htext]
  | some source =>
      cases hread : Select.ofText source with
      | ok q => exact absurd ⟨source, htext, hread⟩ (h q)
      | error error =>
          have hstep : (s.step c).1 = s := step_of_unread htext hread
          exact ⟨requests_eq_nil (congrArg (·.database.schemaReads) hstep),
            congrArg Session.engine hstep⟩

/-- An engine with a schema asks for nothing. -/
theorem requests_of_known {schema : Schema} (hknown : s.engine.snapshot.schema = some schema)
    (hkeep : c.keepsEngine = true) : s.requests c = [] ∧ (s.step c).1.engine = s.engine := by
  by_cases hasks : ∃ q, c.Asks q
  · obtain ⟨q, hq⟩ := hasks
    obtain ⟨hengine, hreads, -⟩ := step_of_asks (s := s) hq
    rw [Engine.prepare_known hknown] at hengine hreads
    exact ⟨requests_eq_nil hreads, hengine⟩
  · exact requests_of_not_asks (not_exists.mp hasks) hkeep

/-- A query that reads asks once if no schema is known, and keeps what it gets. -/
theorem requests_of_asks (hnone : s.engine.snapshot.schema = none) (h : c.Asks q) :
    s.requests c = [s.database.readSchema.1] ∧
      (s.step c).1.engine = s.engine.withSchema s.database.readSchema.1.toOption ∧
      ∀ error, s.database.readSchema.1 = .error error →
        (s.step c).2.error? = some (.ofStore error) := by
  obtain ⟨hengine, hreads, herror⟩ := step_of_asks (s := s) h
  obtain ⟨hprepare, hrefused⟩ := Engine.prepare_unknown hnone s.database q
  rw [hprepare] at hengine hreads
  obtain ⟨source, htext, -⟩ := h
  refine ⟨?_, hengine, fun error h => herror _ (hrefused error h)⟩
  rw [requests, htext, hreads, Database.schemaReads_readSchema]
  dsimp only
  rw [Nat.add_sub_cancel_left]
  rfl

/-- A command in which the engine asked is a query, and no schema was known. -/
theorem asks_of_mem_requests {answer : Except StoreError Schema} (h : answer ∈ s.requests c)
    (hkeep : c.keepsEngine = true) :
    s.engine.snapshot.schema = none ∧ answer = s.database.readSchema.1 ∧ ∃ q, c.Asks q := by
  cases hknown : s.engine.snapshot.schema with
  | some schema =>
      rw [(requests_of_known hknown hkeep).1] at h
      exact nomatch h
  | none =>
      by_cases hasks : ∃ q, c.Asks q
      · obtain ⟨q, hq⟩ := hasks
        rw [(requests_of_asks hknown hq).1] at h
        exact ⟨rfl, List.mem_singleton.mp h, q, hq⟩
      · rw [(requests_of_not_asks (not_exists.mp hasks) hkeep).1] at h
        exact nomatch h

/-- After a command the engine has the schema that it had, or else the one that it got. -/
theorem engine_step (hkeep : c.keepsEngine = true) : (s.step c).1.engine = s.engine.withSchema
    (s.engine.snapshot.schema.or ((s.requests c).findSome? Except.toOption)) := by
  cases hknown : s.engine.snapshot.schema with
  | some schema =>
      rw [(requests_of_known hknown hkeep).2, Option.some_or, ← hknown]
      rfl
  | none =>
      rw [Option.none_or]
      by_cases hasks : ∃ q, c.Asks q
      · obtain ⟨q, hq⟩ := hasks
        obtain ⟨hrequests, hengine, -⟩ := requests_of_asks hknown hq
        rw [hengine, hrequests, List.findSome?_singleton]
      · obtain ⟨hrequests, hengine⟩ := requests_of_not_asks (s := s) (not_exists.mp hasks) hkeep
        rw [hengine, hrequests, List.findSome?_nil, ← hknown]
        rfl

-- ── A run ───────────────────────────────────────────────────────────────────

variable {commands : List Command}

/-- The requests for the schema that the engine makes along a run, with their answers. -/
def requestsIn (s : Session) : List Command → List (Except StoreError Schema)
  | [] => []
  | c :: commands => s.requests c ++ (s.step c).1.requestsIn commands

theorem run_append (s : Session) (first second : List Command) :
    (s.run (first ++ second)).1 = ((s.run first).1.run second).1 := by
  induction first generalizing s with
  | nil => rfl
  | cons c first ih => exact ih (s.step c).1

/-- After a run the engine has the schema that it had, or else the first one that it got. The
    induction is on the commands. -/
theorem engine_run (hkeep : ∀ c ∈ commands, c.keepsEngine = true) :
    (s.run commands).1.engine = s.engine.withSchema
      (s.engine.snapshot.schema.or ((s.requestsIn commands).findSome? Except.toOption)) := by
  induction commands generalizing s with
  | nil =>
      rw [requestsIn, List.findSome?_nil, Option.or_none]
      rfl
  | cons c commands ih =>
      obtain ⟨hc, hcommands⟩ := List.forall_mem_cons.mp hkeep
      show ((s.step c).1.run commands).1.engine = _
      rw [ih hcommands, engine_step hc, requestsIn, List.findSome?_append, ← Option.or_assoc]
      rfl

/-- Along a run an engine with a schema asks for nothing. -/
theorem requestsIn_of_known {schema : Schema} (hknown : s.engine.snapshot.schema = some schema)
    (hkeep : ∀ c ∈ commands, c.keepsEngine = true) : s.requestsIn commands = [] := by
  induction commands generalizing s with
  | nil => rfl
  | cons c commands ih =>
      obtain ⟨hc, hcommands⟩ := List.forall_mem_cons.mp hkeep
      obtain ⟨hrequests, hengine⟩ := requests_of_known hknown hc
      rw [requestsIn, hrequests, ih (hengine ▸ hknown) hcommands]
      rfl

/-- Commands that are no queries leave the engine as it is. -/
theorem engine_run_of_not_asks (hkeep : ∀ c ∈ commands, c.keepsEngine = true)
    (h : ∀ c ∈ commands, ∀ q, ¬ c.Asks q) : (s.run commands).1.engine = s.engine := by
  induction commands generalizing s with
  | nil => rfl
  | cons c commands ih =>
      obtain ⟨hc, hcommands⟩ := List.forall_mem_cons.mp hkeep
      obtain ⟨hnot, hothers⟩ := List.forall_mem_cons.mp h
      show ((s.step c).1.run commands).1.engine = _
      rw [ih hcommands hothers, (requests_of_not_asks hnot hc).2]

/-- Requests fail until one gives a schema, and then there are no more. The induction is on the
    commands: a failed request leaves the engine as it was. -/
theorem requestsIn_eq (hkeep : ∀ c ∈ commands, c.keepsEngine = true) :
    ∃ n, s.requestsIn commands = List.replicate n (.error .unavailable) ∨
      ∃ schema, s.requestsIn commands = List.replicate n (.error .unavailable) ++ [.ok schema] := by
  induction commands generalizing s with
  | nil => exact ⟨0, Or.inl rfl⟩
  | cons c commands ih =>
      obtain ⟨hc, hcommands⟩ := List.forall_mem_cons.mp hkeep
      rw [requestsIn]
      by_cases hrequests : s.requests c = []
      · rw [hrequests]
        exact ih hcommands
      · obtain ⟨answer, hanswer⟩ := List.exists_mem_of_ne_nil _ hrequests
        obtain ⟨hnone, -, q, hq⟩ := asks_of_mem_requests hanswer hc
        obtain ⟨hone, hengine, -⟩ := requests_of_asks hnone hq
        rcases s.database.readSchema_cases with hread | hread
        · have hknown : (s.step c).1.engine.snapshot.schema = some s.database.store.schema := by
            rw [hengine, hread]
            rfl
          refine ⟨0, Or.inr ⟨s.database.store.schema, ?_⟩⟩
          rw [hone, hread, requestsIn_of_known hknown hcommands]
          rfl
        · rw [hone, hread]
          obtain ⟨n, hrest⟩ := ih (s := (s.step c).1) hcommands
          refine ⟨n + 1, hrest.imp ?_ ?_⟩
          · intro hall
            rw [hall]
            rfl
          · rintro ⟨schema, hall⟩
            exact ⟨schema, by rw [hall]; rfl⟩

/-- The engine asks until it gets a schema and plans by that one, if it was not given one. Each
    field but the first two is about a point of the run, after the commands in front of it. -/
structure OneSnapshot (s : Session) (commands : List Command) : Prop where
  given : ∀ schema, s.engine.snapshot.schema = some schema → s.requestsIn commands = [] ∧
    ∀ db q, (s.run commands).1.engine.prepare db q
      = (Engine.prepareWith s.engine.limits schema q, (s.run commands).1.engine, db)
  once : ∃ n, s.requestsIn commands = List.replicate n (.error .unavailable) ∨
    ∃ schema, s.requestsIn commands = List.replicate n (.error .unavailable) ++ [.ok schema]
  unread : ∀ front c back, commands = front ++ c :: back → ∀ source error,
    c.text? = some source → Select.ofText source = .error error →
      ((s.run front).1.step c).1 = (s.run front).1
  failed : ∀ front c back, commands = front ++ c :: back → ∀ error,
    .error error ∈ (s.run front).1.requests c →
      ((s.run front).1.step c).2.error? = some (.ofStore error) ∧
      ((s.run front).1.step c).1.engine.snapshot = .none
  retried : ∀ front c waiting c' back, commands = front ++ c :: (waiting ++ c' :: back) →
    ∀ error, .error error ∈ (s.run front).1.requests c → (∀ d ∈ waiting, ∀ q, ¬ d.Asks q) →
      ∀ q, c'.Asks q → ∃ answer, (s.run (front ++ c :: waiting)).1.requests c' = [answer]
  taken : ∀ front c later back, commands = front ++ c :: (later ++ back) → ∀ schema,
    .ok schema ∈ (s.run front).1.requests c → schema = (s.run front).1.database.store.schema ∧
      ∀ db q, (s.run (front ++ c :: later)).1.engine.prepare db q
        = (Engine.prepareWith s.engine.limits schema q,
          (s.run (front ++ c :: later)).1.engine, db)

/-- **An engine plans against one snapshot.** Along every run that leaves a session its engine, a
    schema that was given is never asked for; otherwise requests fail until one succeeds, and then
    there are no more. A failed request is the error of its query and leaves the engine without a
    schema, and the next query that reads asks again. A schema that was got is the store's own at
    that moment, and every query after it is prepared with it, whatever is defined later. A text
    that does not read changes nothing. -/
theorem oneSnapshot_run (hkeep : ∀ c ∈ commands, c.keepsEngine = true) :
    s.OneSnapshot commands := by
  have hlimits : ∀ {front}, (∀ c ∈ front, c.keepsEngine = true) →
      (s.run front).1.engine.limits = s.engine.limits := by
    intro front hfront
    rw [engine_run hfront]
    rfl
  refine ⟨?_, requestsIn_eq hkeep, ?_, ?_, ?_, ?_⟩
  · intro schema hknown
    refine ⟨requestsIn_of_known hknown hkeep, fun db q => ?_⟩
    have hafter : (s.run commands).1.engine.snapshot.schema = some schema := by
      rw [engine_run hkeep, hknown]
      rfl
    rw [Engine.prepare_known hafter, hlimits hkeep]
  · intro front c back _ source error htext hread
    exact step_of_unread htext hread
  · intro front c back hcommands error hrequest
    have hc := hkeep c (by simp [hcommands])
    obtain ⟨hnone, hanswer, q, hq⟩ := asks_of_mem_requests hrequest hc
    obtain ⟨-, hengine, herror⟩ := requests_of_asks hnone hq
    refine ⟨herror error hanswer.symm, ?_⟩
    rw [hengine, ← hanswer]
    rfl
  · rintro front c waiting c' back rfl error hrequest hwaiting q hq
    rw [List.forall_mem_append, List.forall_mem_cons, List.forall_mem_append] at hkeep
    obtain ⟨-, hc, hkeep, -⟩ := hkeep
    obtain ⟨hnone, hanswer, _, hq'⟩ := asks_of_mem_requests hrequest hc
    obtain ⟨-, hengine, -⟩ := requests_of_asks hnone hq'
    rw [run_append]
    refine ⟨_, (requests_of_asks ?_ hq).1⟩
    show (((s.run front).1.step c).1.run waiting).1.engine.snapshot.schema = none
    rw [engine_run_of_not_asks hkeep hwaiting, hengine, ← hanswer]
    rfl
  · rintro front c later back rfl schema hrequest
    rw [List.forall_mem_append, List.forall_mem_cons, List.forall_mem_append] at hkeep
    obtain ⟨hfront, hc, hlater, -⟩ := hkeep
    obtain ⟨hnone, hanswer, q, hq⟩ := asks_of_mem_requests hrequest hc
    obtain ⟨-, hengine, -⟩ := requests_of_asks hnone hq
    rw [← hanswer] at hengine
    constructor
    · rcases (s.run front).1.database.readSchema_cases with hread | hread
      · exact Except.ok.inj (hanswer.trans hread)
      · exact nomatch hanswer.trans hread
    · intro db q'
      have hafter : (s.run (front ++ c :: later)).1.engine.snapshot.schema = some schema := by
        rw [run_append]
        show (((s.run front).1.step c).1.run later).1.engine.snapshot.schema = _
        rw [engine_run hlater, hengine]
        rfl
      rw [Engine.prepare_known hafter, hlimits]
      exact List.forall_mem_append.mpr ⟨hfront, List.forall_mem_cons.mpr ⟨hc, hlater⟩⟩

/-- A refused request and one that is answered, with tables and indexes that come before, between
    and after them. -/
def sampleRun : List Command :=
  [.addTable "users" [.object [("name", .text "Ann")]] [("by_name", ["name"])], .failSchema 1,
    .explain "", .explain "SELECT name FROM users", .defineIndex "users" "by_name" ["age"],
    .execute "SELECT name FROM users", .failSchema 1, .createTable "orders",
    .defineIndex "users" "by_name" ["name"], .outcome "SELECT * FROM orders"]

theorem oneSnapshot_run_sample : (start .standard none).OneSnapshot sampleRun ∧
    (start .standard none).requestsIn sampleRun = [.error .unavailable,
      .ok ⟨Keyed.ofList [("users", Keyed.ofList [("by_name", ["age"])])]⟩] ∧
    ((start .standard none).run sampleRun).2.map Answer.error? = [none, none,
      some .emptyQuery, some (.ofStore .unavailable), none, none,
      none, none, none, some (.tableNotFound "orders")] := by
  refine ⟨oneSnapshot_run (by decide), ?_, ?_⟩
  · decide +kernel
  · decide +kernel

end Session

end DocQuery
