/-
# Sorting by insertion

`sortBy` sorts a list by a test of order that may have effects, such as failing on two values that
have no order. It takes the longest start that is in order already -- or in strictly falling order,
and then reversed -- and puts every further item into its place by bisection, after those that are
equal to it.

Which pairs are compared, and in which order, is part of what the function says: with a test that
can fail, or one that is not an order at all, it decides the outcome.
-/

namespace Haulage

variable {m : Type → Type} [Monad m] {α : Type}

/-- The place for an item between two places of a sorted list, found by bisection. -/
def insertionPlace (less : α → α → m Bool) (x : α) (xs : List α) (low high : Nat) : m Nat :=
  if low < high then
    let middle := low + (high - low) / 2
    match xs[middle]? with
    | none => pure low
    | some y => do
      if ← less x y then insertionPlace less x xs low middle
      else insertionPlace less x xs (middle + 1) high
  else pure low
termination_by high - low

/-- The sorted list with an item put into its place. -/
def insertSorted (less : α → α → m Bool) (x : α) (xs : List α) : m (List α) := do
  let place ← insertionPlace less x xs 0 xs.length
  pure (xs.take place ++ x :: xs.drop place)

/-- The longest start of `xs` that goes on from `last` in falling order, or in the other case in
order: its items, the last one first, and what follows them. -/
def orderedStart (less : α → α → m Bool) (falling : Bool) (last : α) (taken : List α) :
    List α → m (List α × List α)
  | [] => pure (taken, [])
  | x :: xs => do
    if (← less x last) == falling then orderedStart less falling x (x :: taken) xs
    else pure (taken, x :: xs)

/-- The list in order; items of equal rank keep theirs. -/
def sortBy (less : α → α → m Bool) : List α → m (List α)
  | [] => pure []
  | [x] => pure [x]
  | x :: y :: rest => do
    let falling ← less y x
    let (taken, rest) ← orderedStart less falling y [y, x] rest
    rest.foldlM (fun sorted x => insertSorted less x sorted)
      (if falling then taken else taken.reverse)

end Haulage
