import JoinPlanner.Histogram.Basic

/-!
# JoinPlanner — progressions

A progression has a first integer, a step and a number of integers. It can be long, so
that it is only listed as far as that is needed.

* `Progression.between`      — the integers from one bound to before another one.
* `Progression.toList`       — the integers themselves.
* `Histogram.addProgression` — adds the integers of a progression to a histogram.
* `addProgression_eq`        — that is adding the listed integers.
-/

namespace JoinPlanner

/-- Integers with a constant step. -/
structure Progression where
  start : Int
  step : Int
  count : Nat
  deriving DecidableEq, Repr

namespace Progression

/-- How many integers there are from `start` to before `stop`, `step` by `step`. -/
def countBetween (start stop step : Int) : Nat :=
  let distance := if 0 < step then stop - start else start - stop
  ((distance + step.natAbs - 1) / step.natAbs).toNat

/-- The integers from `start` to before `stop`, if the step is not zero. -/
def between (start stop step : Int) : Outcome Progression :=
  if step = 0 then .error .zeroStep else .ok ⟨start, step, countBetween start stop step⟩

/-- The given number of integers from `start` on. -/
def listFrom (start step : Int) : Nat → List Int
  | 0 => []
  | count + 1 => start :: listFrom (start + step) step count

/-- The integers of a progression. -/
def toList (p : Progression) : List Int := listFrom p.start p.step p.count

end Progression

namespace Histogram

variable {α : Type} [Arithmetic α]

/-- Adds integers from `value` on; the first one that cannot be added ends it with its error. -/
def addFrom (h : Histogram α) (value step : Int) : Nat → Histogram α × Outcome Unit
  | 0 => (h, .ok ())
  | count + 1 =>
    match h.locate value with
    | .ok bucket => (h.increment bucket).addFrom (value + step) step count
    | .error e => (h, .error e)

/-- Adds the integers of a progression in order, as far as they can be added. -/
def addProgression (h : Histogram α) (p : Progression) : Histogram α × Outcome Unit :=
  h.addFrom p.start p.step p.count

theorem addFrom_eq (h : Histogram α) (value step : Int) (count : Nat) :
    h.addFrom value step count = h.addAll (Progression.listFrom value step count) := by
  induction count generalizing h value with
  | zero => rfl
  | succ count ih =>
    unfold addFrom Progression.listFrom addAll
    cases h.locate value with
    | ok bucket => exact ih _ _
    | error e => rfl

/-- Adding a progression is adding its integers one after another. -/
theorem addProgression_eq (h : Histogram α) (p : Progression) :
    h.addProgression p = h.addAll p.toList :=
  h.addFrom_eq p.start p.step p.count

end Histogram

end JoinPlanner
