import DocQuery.Engine.Basic

/-!
# Sessions — one database, one engine, command after command

A session is a database, an engine that works on it, and a snapshot of its own that shares
nothing with the engine's. `Session.step` runs one command and gives its answer; a command
that fails changes at most what failing changes (a tick, a request, a scan), and a session whose
host catches a panic can go on. The schema of
the store itself can be looked at too, which is no request and never fails.
-/

namespace DocQuery

/-- A part of a scan as it is put together. -/
inductive ScanPart where
  | through (index : String) (range : IndexRange)
  | filter (filter : Filter)
  | direct (direction : Direction)
  deriving DecidableEq

/-- What a session is told to do. -/
inductive Command where
  | createTable (table : String)
  | addTable (table : String) (docs : List Document) (indexes : List (String × List String))
  | insert (table : String) (doc : Document)
  | defineIndex (table index : String) (fields : List String)
  | rowCount (table : String)
  | scansOpened
  | storeSchema
  | failSchema (times : Nat)
  | schemaReads
  | newSnapshot (schema : Option Schema)
  | readSnapshot
  | newEngine (limits : Limits) (schema : Option Schema)
  | execute (source : String)
  | outcome (source : String)
  | select (source : String) (limits : Limits)
  | explain (source : String)
  | scan (table : String) (parts : List ScanPart) (count : Option Nat) (late : List Document)

/-- What a session answers. -/
inductive Answer where
  | done
  | id (result : Except StoreError String)
  | defined (result : Except StoreError Unit)
  | count (n : Option Nat)
  | schema (schema : Schema)
  | loaded (isLoaded : Bool)
  | snapshot (result : Except StoreError Schema) (isLoaded : Bool)
  | engine (limits : Limits) (scans : Nat)
  | rows (result : Outcome QueryError (List Row)) (scans : Nat)
  | outcome (result : Outcome QueryError (List Row))
  | refused (error : QueryError)
  | plan (result : Except QueryError Plan) (scans : Nat)
  | scanned (result : Outcome StoreError (List Row)) (scans : Nat)

/-- A database, an engine on it, and a snapshot beside it. -/
structure Session where
  database : Database
  engine : Engine
  snapshot : Snapshot
  deriving DecidableEq

namespace Session

/-- A session on an empty database. -/
def start (limits : Limits) (schema : Option Schema) : Session :=
  ⟨.empty, ⟨limits, ⟨schema⟩⟩, .none⟩

/-- The session with another store. -/
def withStore (s : Session) (store : Store) : Session :=
  { s with database := { s.database with store } }

/-- Add a part to a scan. -/
def addPart (q : Scan) : ScanPart → Except StoreError Scan
  | .through index range => q.through index range
  | .filter f => .ok (q.filtered f)
  | .direct d => .ok (q.directed d)

/-- Run a scan. Documents that come late are inserted once it is open, and not seen. -/
def runScan (s : Session) (table : String) (parts : List ScanPart) (count : Option Nat)
    (late : List Document) : Session × Answer :=
  match s.database.store.scan table with
  | .error e => (s, .scanned (.error (.refused e)) 0)
  | .ok q =>
    let s := { s with database := s.database.afterScans 1 }
    match parts.foldlM addPart q with
    | .error e => (s, .scanned (.error (.refused e)) 1)
    | .ok q =>
      (s.withStore (s.database.store.insertAll table late), .scanned (.ofSort (q.take count)) 1)

/-- The session and the answer after a command. -/
def step (s : Session) : Command → Session × Answer
  | .createTable table => (s.withStore (s.database.store.createTable table), .done)
  | .addTable table docs indexes =>
    let filled := s.database.store.addTable table docs
    let store := indexes.foldl (fun store i =>
      match store.defineIndex table i.1 i.2 with
      | .ok store => store
      | .error _ => store) filled
    (s.withStore store, .count (store.rowCount? table))
  | .insert table doc =>
    let (result, store) := s.database.store.insert table doc
    (s.withStore store, .id result)
  | .defineIndex table index fields =>
    match s.database.store.defineIndex table index fields with
    | .ok store => (s.withStore store, .defined (.ok ()))
    | .error e => (s, .defined (.error e))
  | .rowCount table => (s, .count (s.database.store.rowCount? table))
  | .scansOpened => (s, .count (some s.database.scans))
  | .storeSchema => (s, .schema s.database.store.schema)
  | .failSchema times => ({ s with database := { s.database with outages := times } }, .done)
  | .schemaReads => (s, .count (some s.database.schemaReads))
  | .newSnapshot schema => ({ s with snapshot := ⟨schema⟩ }, .loaded schema.isSome)
  | .readSnapshot =>
    let (result, snapshot, database) := s.snapshot.get s.database
    ({ s with database, snapshot }, .snapshot result snapshot.isLoaded)
  | .newEngine limits schema =>
    ({ s with engine := ⟨limits, ⟨schema⟩⟩ }, .engine limits s.database.scans)
  | .execute source =>
    let (result, engine, database) := s.engine.execute s.database source
    ({ s with database, engine }, .rows result (database.scans - s.database.scans))
  | .outcome source =>
    let (result, engine, database) := s.engine.execute s.database source
    ({ s with database, engine }, .outcome result)
  | .select source limits =>
    match Select.ofText source with
    | .error e => (s, .refused e)
    | .ok query =>
      let (result, _, database) := Engine.executeQuery ⟨limits, .none⟩ s.database query
      ({ s with database }, .rows result (database.scans - s.database.scans))
  | .explain source =>
    let (result, engine, database) := s.engine.explain s.database source
    ({ s with database, engine }, .plan result (database.scans - s.database.scans))
  | .scan table parts count late => s.runScan table parts count late

/-- The session after commands, and the answer to each. -/
def run (s : Session) : List Command → Session × List Answer
  | [] => (s, [])
  | c :: cs =>
    let (next, answer) := s.step c
    let (last, answers) := next.run cs
    (last, answer :: answers)

end Session

end DocQuery
