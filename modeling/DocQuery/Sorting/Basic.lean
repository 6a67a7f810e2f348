import DocQuery.Sorting.Small

/-!
# Sorting — runs, quicksort, and the merges between

The sort looks for runs that are in order already. What lies between them is left unsorted as
long as only unsorted parts would be merged, and is then sorted by a quicksort; neighbours are
merged in the order of a power policy, so that the merges stay balanced. Both sorts fall back on
short lists to `smallSort`. Lists of up to twenty elements are sorted by insertion alone.

A sort gives no list if the test contradicts itself and the sort notices. Elements of different
sizes may be sorted in different ways, and then a test that contradicts itself can give lists in
different orders.
-/

namespace DocQuery.Sorting

variable {α : Type} (less : α → α → Bool) (bytes : Nat)

/-- The length up to which a list is short. -/
def shortLength : Nat := 32

-- ── Pivots ──────────────────────────────────────────────────────────────────

/-- The element at one place comes before that at another. -/
def lessAt (v : List α) (i j : Nat) : Bool :=
  match v[i]?, v[j]? with
  | some x, some y => less x y
  | _, _ => false

/-- The place of the median of three elements. -/
def medianOfThree (v : List α) (a b c : Nat) : Nat :=
  if lessAt less v a b == lessAt less v a c then
    if lessAt less v b c != lessAt less v a b then c else b
  else a

/-- The place of the median of the medians of three parts of a length. -/
def medianOfParts (v : List α) (a b c length : Nat) : Nat :=
  if 8 ≤ length then
    let eighth := length / 8
    let within (start : Nat) :=
      medianOfParts v start (start + eighth * 4) (start + eighth * 7) eighth
    medianOfThree less v (within a) (within b) (within c)
  else medianOfThree less v a b c
termination_by length

/-- The place of an element that is likely to be in the middle. -/
def choosePivot (v : List α) : Nat :=
  let eighth := v.length / 8
  if v.length < 64 then medianOfThree less v 0 (eighth * 4) (eighth * 7)
  else medianOfParts less v 0 (eighth * 4) (eighth * 7) eighth

-- ── Quicksort ───────────────────────────────────────────────────────────────

/-- The elements that pass a test and those that do not, in their order. The pivot is not
    tested, and goes where it is told. -/
def splitBy (test : α → Bool) (pivotPasses : Bool) (before : List α) (pivot : α)
    (after : List α) : List α × List α :=
  let passing := if pivotPasses then [pivot] else []
  let failing := if pivotPasses then [] else [pivot]
  (before.filter test ++ passing ++ after.filter test,
    before.filter (!test ·) ++ failing ++ after.filter (!test ·))

/-- Sort a list by splitting it at pivots, at most so often one in the other, and then by the
    fallback. A pivot that is not greater than the one that bounds the list from below, or that
    no element comes before, is split off with all that are tied with it. -/
def quicksort (fallback : List α → Option (List α)) :
    Nat → Option α → List α → Option (List α)
  | 0, _, v => if v.length ≤ shortLength then smallSort less bytes v else fallback v
  | splits + 1, bound, v =>
    if v.length ≤ shortLength then smallSort less bytes v
    else
      let place := choosePivot less v
      match v.drop place with
      | [] => some v
      | pivot :: after => do
        let before := v.take place
        let (low, high) := splitBy (less · pivot) false before pivot after
        if bound.any (!less · pivot) || low.isEmpty then
          let (ties, above) := splitBy (!less pivot ·) true before pivot after
          return ties ++ (← quicksort fallback splits none above)
        else
          let sortedHigh ← quicksort fallback splits (some pivot) high
          return (← quicksort fallback splits bound low) ++ sortedHigh

-- ── Runs ────────────────────────────────────────────────────────────────────

/-- Neighbouring elements, and whether they are in order. -/
structure Run (α : Type) where
  elements : List α
  isSorted : Bool

/-- The elements that follow one of a run as long as each stands to the one before it as the
    test says, and those behind them. -/
def extend (follows : α → α → Bool) (last : α) : List α → List α × List α
  | [] => ([], [])
  | x :: xs =>
    if follows last x then
      let (run, rest) := extend follows x xs
      (x :: run, rest)
    else ([], x :: xs)

/-- The longest run at the start of a list, put in order, and what is behind it. A run descends
    strictly or ascends. -/
def findRun : List α → List α × List α
  | x :: y :: v =>
    if less y x then
      let (run, rest) := extend (fun last next => less next last) y v
      ((x :: y :: run).reverse, rest)
    else
      let (run, rest) := extend (fun last next => !less next last) y v
      (x :: y :: run, rest)
  | v => (v, [])

/-- Cut off the first run of a list: one in order if it is long enough, and else some elements,
    which are sorted at once or left as they are. -/
def createRun (enough : Nat) (eager : Bool) (v : List α) : Option (Run α × List α) :=
  let (run, rest) := findRun less v
  if enough ≤ v.length && enough ≤ run.length then some (⟨run, true⟩, rest)
  else if eager then do
    return (⟨← smallSort less bytes (v.take shortLength), true⟩, v.drop shortLength)
  else some (⟨v.take enough, false⟩, v.drop enough)

/-- Cut a list into runs. -/
def cutRuns (enough : Nat) (eager : Bool) : Nat → List α → Option (List (Run α))
  | _, [] => some []
  | 0, _ :: _ => none
  | fuel + 1, x :: v => do
    let (run, rest) ← createRun less bytes enough eager (x :: v)
    return run :: (← cutRuns enough eager fuel rest)

-- ── Merging runs ────────────────────────────────────────────────────────────

/-- Merge two lists that are in order, from the side of the shorter one. -/
def mergeLists (left right : List α) : List α :=
  if left.length ≤ right.length then left.merge right fun x y => !less y x
  else (right.reverse.merge left.reverse fun y x => !less y x).reverse

/-- The elements of a run in order, by a sort if they are not yet. -/
def Run.sorted (quick : List α → Option (List α)) (run : Run α) : Option (List α) :=
  if run.isSorted then some run.elements else quick run.elements

/-- Merge two neighbouring runs. Runs that are both not in order are only put together, unless
    they would be too long. -/
def mergeRuns (quick : List α → Option (List α)) (room : Nat) (left right : Run α) :
    Option (Run α) :=
  if left.elements.length + right.elements.length ≤ room
      && !left.isSorted && !right.isSorted then
    some ⟨left.elements ++ right.elements, false⟩
  else do
    return ⟨mergeLists less (← left.sorted quick) (← right.sorted quick), true⟩

/-- Merge a run with those on the stack whose merge is wanted at a depth or deeper. -/
def collapse (quick : List α → Option (List α)) (room depth : Nat) :
    List (Run α × Nat) → Run α → Option (List (Run α × Nat) × Run α)
  | [], run => some ([], run)
  | (left, wanted) :: stack, run =>
    if depth ≤ wanted then do
      collapse quick room depth stack (← mergeRuns less quick room left run)
    else some ((left, wanted) :: stack, run)

/-- The count of leading zeros of a word of 64 bits. -/
def leadingZeros (n : Nat) : Nat :=
  if n = 0 then 64 else 63 - n.log2

/-- How deep the merge of two neighbouring runs is wanted, by where they begin and end. -/
def mergeDepth (scale start middle stop : Nat) : Nat :=
  leadingZeros ((scale * (start + middle)).xor (scale * (middle + stop)))

/-- Merge into one run those on the stack, the one behind them that ends at a place, and those
    that follow. -/
def mergeAll (quick : List α → Option (List α)) (room scale : Nat) :
    Nat → List (Run α × Nat) → Run α → List (Run α) → Option (Run α)
  | _, stack, run, [] => (collapse less quick room 0 stack run).map Prod.snd
  | place, stack, run, next :: runs => do
    let stop := place + next.elements.length
    let depth := mergeDepth scale (place - run.elements.length) place stop
    let (stack, run) ← collapse less quick room depth stack run
    mergeAll quick room scale stop ((run, depth) :: stack) next runs

-- ── The sort ────────────────────────────────────────────────────────────────

/-- An approximation to the square root. -/
def approximateRoot (n : Nat) : Nat :=
  let shift := (1 + n.log2) / 2
  (1 <<< shift + n >>> shift) / 2

/-- The length from which a run is worth keeping. -/
def enoughFor (length : Nat) : Nat :=
  if length ≤ 4096 then min (length - length / 2) 64 else approximateRoot length

/-- How many elements can be sorted by a quicksort at once: all of them up to eight million
    bytes, and half of them in any case. -/
def roomFor (length : Nat) : Nat :=
  max (length - length / 2) (min length (8000000 / bytes))

/-- Sort a list run by run. -/
def sortRuns (quick : List α → Option (List α)) (eager : Bool) (v : List α) :
    Option (List α) := do
  match ← cutRuns less bytes (enoughFor v.length) eager v.length v with
  | [] => return v
  | first :: runs =>
    let scale := (1 <<< 62 + v.length - 1) / v.length
    let run ← mergeAll less quick (roomFor bytes v.length) scale first.elements.length [] first runs
    run.sorted quick

/-- Sort a list run by run, each run at once. -/
def sortEagerly (v : List α) : Option (List α) :=
  sortRuns less bytes (smallSort less bytes) true v

/-- Sort a list by quicksort. -/
def stableQuicksort (v : List α) : Option (List α) :=
  quicksort less bytes (sortEagerly less bytes) (2 * v.length.log2) none v

/-- The list of elements of so many bytes in the order of a comparison. -/
def stableSort (compare : α → α → Ordering) (v : List α) : Option (List α) :=
  let less := fun x y => compare x y == .lt
  if v.length ≤ 20 then some (insertAll less [] v)
  else sortRuns less bytes (stableQuicksort less bytes) (v.length ≤ 2 * shortLength) v

end DocQuery.Sorting
