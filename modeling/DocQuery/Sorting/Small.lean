/-!
# Small sorts — short lists, and merging from both ends

A sort is given the test that one element comes before another, and is stable: what the test
does not tell apart stays in place. Short lists are sorted by insertion, or half by half: each
half starts with four or eight elements that are sorted by a fixed pattern, takes in the others
by insertion, and the halves are merged from both ends at once. The two ends meet if the test is
that of an order. If it contradicts itself they may pass each other, and the sort gives up.
-/

namespace DocQuery.Sorting

variable {α : Type} (less : α → α → Bool)

-- ── Insertion ───────────────────────────────────────────────────────────────

/-- Put an element into a list in descending order, before all that do not come after it. -/
def place (x : α) : List α → List α
  | [] => [x]
  | y :: ys => if less x y then y :: place x ys else x :: y :: ys

/-- Insert elements one after the other into a list that is in order. -/
def insertAll (sorted xs : List α) : List α :=
  (xs.foldl (fun descending x => place less x descending) sorted.reverse).reverse

-- ── Merging from both ends ──────────────────────────────────────────────────

/-- Merge two lists for a number of steps, the first one first where the test does not decide:
    what was taken, and what is left of either list. -/
def advance : Nat → List α → List α → List α × List α × List α
  | n + 1, x :: xs, y :: ys =>
    if less y x then
      let (taken, left) := advance n (x :: xs) ys
      (y :: taken, left)
    else
      let (taken, left) := advance n xs (y :: ys)
      (x :: taken, left)
  | _, xs, ys => ([], xs, ys)

/-- Merge the halves of a list, half of the steps from the front and as many from the back. If
    the count of elements is odd, one of them is left between the ends. If an end takes what the
    other one has taken, the test contradicts itself. -/
def mergeHalves (v : List α) : Option (List α) :=
  let half := v.length / 2
  let left := v.take half
  let right := v.drop half
  let (front, leftBack, rightBack) := advance less half left right
  let (back, rightFront, leftFront) :=
    advance (fun x y => less y x) half right.reverse left.reverse
  let leftFrom := left.length - leftBack.length
  let rightFrom := right.length - rightBack.length
  if leftFrom ≤ leftFront.length && rightFrom ≤ rightFront.length then
    let middle := leftFront.reverse.drop leftFrom ++ rightFront.reverse.drop rightFrom
    some (front ++ middle ++ back.reverse)
  else none

-- ── Short lists ─────────────────────────────────────────────────────────────

/-- Two elements in order. -/
def inPair (x y : α) : α × α :=
  if less y x then (y, x) else (x, y)

/-- The elements of two pairs that are in order, in order. The least and the greatest one are
    found first, and the other two are tested against each other. -/
def joinPairs (a b c d : α) : List α :=
  let least := if less c a then c else a
  let greatest := if less d b then b else d
  let left := if less c a then a else if less d b then c else b
  let right := if less d b then d else if less c a then b else c
  if less right left then [least, right, left, greatest] else [least, left, right, greatest]

/-- Sort four elements by five tests. -/
def sortFour : List α → List α
  | [v, w, x, y] =>
    let (a, b) := inPair less v w
    let (c, d) := inPair less x y
    joinPairs less a b c d
  | v => v

/-- Sort eight elements, each four of them first. -/
def sortEight (v : List α) : Option (List α) :=
  mergeHalves less (sortFour less (v.take 4) ++ sortFour less (v.drop 4))

/-- Sort one half of a short list. Elements of at most 16 bytes are cheap to move, so that of a
    list that is long enough eight are sorted first. -/
def sortHalf (bytes length : Nat) (v : List α) : Option (List α) :=
  if bytes ≤ 16 && 16 ≤ length then do
    let first ← sortEight less (v.take 8)
    return insertAll less first (v.drop 8)
  else if 8 ≤ length then some (insertAll less (sortFour less (v.take 4)) (v.drop 4))
  else some (insertAll less [] v)

/-- Sort a short list of elements of so many bytes. -/
def smallSort (bytes : Nat) (v : List α) : Option (List α) :=
  if v.length < 2 then some v
  else do
    let half := v.length / 2
    let left ← sortHalf less bytes v.length (v.take half)
    let right ← sortHalf less bytes v.length (v.drop half)
    mergeHalves less (left ++ right)

end DocQuery.Sorting
