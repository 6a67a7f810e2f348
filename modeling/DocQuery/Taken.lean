/-!
# Reading steps — a value and a rest that is shorter

A reading step takes something from the front of a list and leaves a rest. `Taken α σ n`
carries the proof that the rest has fewer than `n` items, so a reader that goes on with
the rest terminates by the length of its input and needs no fuel.
-/

namespace DocQuery

/-- A value read from a list, and the rest of the list, shorter than `bound`. -/
structure Taken (α σ : Type) (bound : Nat) where
  value : α
  rest : List σ
  shorter : rest.length < bound

namespace Taken

variable {α β σ : Type} {m n : Nat}

/-- The same step under a looser bound. -/
def widen (t : Taken α σ m) (h : m ≤ n) : Taken α σ n :=
  ⟨t.value, t.rest, Nat.lt_of_lt_of_le t.shorter h⟩

/-- The same step with another value. -/
def map (f : α → β) (t : Taken α σ n) : Taken β σ n :=
  ⟨f t.value, t.rest, t.shorter⟩

/-- A step that takes one item and leaves the rest. -/
def one (value : α) (rest : List σ) : Taken α σ (rest.length + 1) :=
  ⟨value, rest, Nat.lt_succ_self _⟩

/-- The same step on a list with one more item in front. -/
def behind (t : Taken α σ n) : Taken α σ (n + 1) :=
  ⟨t.value, t.rest, Nat.lt_succ_of_lt t.shorter⟩

/-- A step on what an earlier one left. -/
def after (first : Taken α σ n) (t : Taken β σ first.rest.length) : Taken β σ n :=
  ⟨t.value, t.rest, Nat.lt_trans t.shorter first.shorter⟩

end Taken

end DocQuery
