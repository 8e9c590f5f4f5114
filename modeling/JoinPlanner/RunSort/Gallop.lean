/-!
# JoinPlanner — searching a run

A run is a list in order, and a test tells on which side of an element a place lies:
the elements that fail the test come before those that pass it. The places where the
test is asked are fixed, so that the outcome is settled even for a test that fails or
that does not split the run.

* `bisect` — the first place that passes, between two bounds, found by halving.
* `gallop` — the same in the whole run, in growing steps from a place nearby.
-/

namespace JoinPlanner.RunSort

variable {α ε : Type} (test : α → Except ε Bool)

/-- The test at some place; places outside of the run pass. -/
def passes (xs : Array α) (i : Nat) : Except ε Bool :=
  match xs[i]? with
  | some x => test x
  | none => .ok true

/-- The first place between two bounds that passes. -/
def bisect (xs : Array α) (low high : Nat) : Except ε Nat :=
  if low < high then do
    let middle := (low + high) / 2
    if ← passes test xs middle then bisect xs low middle
    else bisect xs (middle + 1) high
  else .ok low
termination_by high - low

/-- How far a search got: the last distance that went on, and the one that did not. -/
structure Reach where
  last : Nat
  next : Nat
  deriving DecidableEq, Repr

/--
Tries the distances 1, 3, 7 and so on, below a bound, as long as the test has the
wanted answer.
-/
def reach (xs : Array α) (wanted : Bool) (place : Nat → Nat) (bound : Nat) :
    (fuel last step : Nat) → Except ε Reach
  | 0, last, _ => .ok ⟨last, bound⟩
  | fuel + 1, last, step =>
    if step < bound then do
      if (← passes test xs (place step)) == wanted then
        reach xs wanted place bound fuel step (2 * step + 1)
      else return ⟨last, step⟩
    else .ok ⟨last, bound⟩

/-- The first place that passes, searched from a place of the run. -/
def gallop (xs : Array α) (start : Nat) : Except ε Nat := do
  if ← passes test xs start then
    let r ← reach test xs true (start - ·) (start + 1) (start + 1) 0 1
    bisect test xs (start + 1 - r.next) (start - r.last)
  else
    let bound := xs.size - start
    let r ← reach test xs false (start + ·) bound bound 0 1
    bisect test xs (start + r.last + 1) (start + r.next)

end JoinPlanner.RunSort
