import DocQuery.Engine.Run
import DocQuery.Limits.Basic
import DocQuery.Statement.Check
import DocQuery.Statement.Parser

/-!
# Engines — queries against one snapshot of the schema

A database is a store whose schema can be asked for; asking may fail, and how often it was
asked is known. An engine asks once, plans every query against the snapshot it got, and
asks again only while it has none. It holds queries to its limits.
-/

namespace DocQuery

-- ── Databases ───────────────────────────────────────────────────────────────

/-- A store, how many of the next schema requests will fail, how many there were, and how
    many scans were opened. -/
structure Database where
  store : Store
  outages : Nat
  schemaReads : Nat
  scans : Nat
  deriving DecidableEq

namespace Database

/-- The database with an empty store. -/
def empty : Database :=
  ⟨.empty, 0, 0, 0⟩

/-- Ask for the schema. -/
def readSchema (db : Database) : Except StoreError Schema × Database :=
  let db := { db with schemaReads := db.schemaReads + 1 }
  if db.outages = 0 then (.ok db.store.schema, db)
  else (.error .unavailable, { db with outages := db.outages - 1 })

/-- The database after more scans. -/
def afterScans (db : Database) (scans : Nat) : Database :=
  { db with scans := db.scans + scans }

end Database

-- ── Snapshots ───────────────────────────────────────────────────────────────

/-- A schema that is asked for once, unless it is given. -/
structure Snapshot where
  schema : Option Schema
  deriving DecidableEq

namespace Snapshot

/-- The snapshot that is not taken yet. -/
def none : Snapshot :=
  ⟨.none⟩

/-- The schema is known. -/
def isLoaded (s : Snapshot) : Bool :=
  s.schema.isSome

/-- The schema, asked for if it is not known. A failure leaves it unknown. -/
def get (s : Snapshot) (db : Database) : Except StoreError Schema × Snapshot × Database :=
  match s.schema with
  | some schema => (.ok schema, s, db)
  | .none =>
    match db.readSchema with
    | (.ok schema, db) => (.ok schema, ⟨some schema⟩, db)
    | (.error e, db) => (.error e, s, db)

end Snapshot

-- ── Engines ─────────────────────────────────────────────────────────────────

/-- Limits and a snapshot of the schema. -/
structure Engine where
  limits : Limits
  snapshot : Snapshot
  deriving DecidableEq

/-- A query that is ready to run: with its limit, and its plan. -/
structure Prepared where
  query : Select
  plan : Plan
  deriving DecidableEq

namespace Engine

/-- The query as it will be run against a schema. The faults are looked for in this order:
    missing tables, limits, senseless queries, and conditions that an index does not serve. -/
def prepareWith (limits : Limits) (schema : Schema) (s : Select) :
    Except QueryError Prepared := do
  s.checkTables schema
  let query ← limits.enforce s
  query.check
  let plan ← query.plan schema
  return ⟨query, plan⟩

/-- Prepare a query. The engine may take its snapshot on the way. -/
def prepare (e : Engine) (db : Database) (s : Select) :
    Except QueryError Prepared × Engine × Database :=
  match e.snapshot.get db with
  | (.error error, snapshot, db) => (.error (.ofStore error), { e with snapshot }, db)
  | (.ok schema, snapshot, db) => (prepareWith e.limits schema s, { e with snapshot }, db)

/-- Run a query. -/
def executeQuery (e : Engine) (db : Database) (s : Select) :
    Outcome QueryError (List Row) × Engine × Database :=
  match e.prepare db s with
  | (.error error, e, db) => (.error (.refused error), e, db)
  | (.ok p, e, db) =>
    let r := p.plan.run p.query db.store e.limits.maxRows
    (r.result, e, db.afterScans r.scans)

/-- Run a query given as text. A text that does not read leaves everything as it is. -/
def execute (e : Engine) (db : Database) (source : String) :
    Outcome QueryError (List Row) × Engine × Database :=
  match Select.ofText source with
  | .error error => (.error (.refused error), e, db)
  | .ok s => e.executeQuery db s

/-- Plan a query given as text, without reading a row. -/
def explain (e : Engine) (db : Database) (source : String) :
    Except QueryError Plan × Engine × Database :=
  match Select.ofText source with
  | .error error => (.error error, e, db)
  | .ok s =>
    let (prepared, e, db) := e.prepare db s
    (prepared.map Prepared.plan, e, db)

end Engine

end DocQuery
