import DocQuery.Error

/-!
# Readings — a result and the scans it took

Running a query opens scans on a store, and a host may want to know how many. A reading is
a result, or the reason there is none, with the count of scans that were opened on the way.
Readings are chained with `>>=`: the counts add up, and a failure keeps its count. A panic stops
also what would be read after a refusal.
-/

namespace DocQuery

/-- A result or a failure, and the count of scans opened for it. -/
structure Reading (α : Type) where
  result : Outcome QueryError α
  scans : Nat

namespace Reading

variable {α β : Type}

/-- What is known without a scan. -/
def ofResult (result : Outcome QueryError α) : Reading α :=
  ⟨result, 0⟩

/-- Go on with the result, if there is one. -/
def andThen (r : Reading α) (next : α → Reading β) : Reading β :=
  match r.result with
  | .error e => ⟨.error e, r.scans⟩
  | .ok a => ⟨(next a).result, r.scans + (next a).scans⟩

instance : Monad Reading where
  pure a := ofResult (.ok a)
  bind := andThen

/-- The same result after more scans. -/
def after (scans : Nat) (r : Reading α) : Reading α :=
  ⟨r.result, scans + r.scans⟩

/-- All readings up to a panic, also after one is refused: their results, the panic, or the first
    refusal. -/
def all : List (Reading α) → Reading (List α)
  | [] => pure []
  | r :: rs =>
    match r.result, all rs with
    | .error .panicked, _ => ⟨.error .panicked, r.scans⟩
    | .error (.refused _), ⟨.error .panicked, scans⟩ => ⟨.error .panicked, r.scans + scans⟩
    | .error (.refused e), ⟨_, scans⟩ => ⟨.error (.refused e), r.scans + scans⟩
    | .ok _, ⟨.error e, scans⟩ => ⟨.error e, r.scans + scans⟩
    | .ok a, ⟨.ok as, scans⟩ => ⟨.ok (a :: as), r.scans + scans⟩

end Reading

end DocQuery
