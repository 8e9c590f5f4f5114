/-!
# JoinPlanner — numbers of estimates

Estimates mix exact integers with an approximating arithmetic. The integers are
unbounded; the approximating side is a parameter, so that one definition of an
estimate can be read in doubles, in exact rationals, or under any rounding.

* `NumberError`  — the ways in which a conversion between the two sides fails.
* `Arithmetic`   — what an approximating arithmetic provides.
* `Number`       — an integer, or a value of the approximating arithmetic.

An operation on two integers stays exact; a mixed one first converts the integer.
Comparisons never convert: an integer is compared with the exact value.
-/

namespace JoinPlanner

/-- Why a number could not be converted. -/
inductive NumberError where
  /-- An integer beyond the range of the approximating arithmetic. -/
  | integerTooLarge
  /-- A quotient of two integers beyond that range. -/
  | quotientTooLarge
  /-- The undefined value has no integer part. -/
  | undefinedToInteger
  /-- An infinite value has no integer part. -/
  | infiniteToInteger
  deriving DecidableEq, Repr

/-- The wording of a failed conversion. -/
def NumberError.message : NumberError → String
  | .integerTooLarge => "int too large to convert to float"
  | .quotientTooLarge => "integer division result too large for a float"
  | .undefinedToInteger => "cannot convert float NaN to integer"
  | .infiniteToInteger => "cannot convert float infinity to integer"

/--
An approximating arithmetic. Its operations are total; only the passage from and
to the integers can fail. A comparison answers `none` where no order exists.
-/
class Arithmetic (α : Type) where
  zero : α
  one : α
  /-- The value nearest to an integer. -/
  ofInt : Int → Except NumberError α
  /-- The value nearest to the quotient of two integers. -/
  quotient : Int → Int → Except NumberError α
  add : α → α → α
  sub : α → α → α
  mul : α → α → α
  div : α → α → α
  compare? : α → α → Option Ordering
  /-- Comparison with the exact integer. -/
  compareInt? : α → Int → Option Ordering
  /-- The largest integer not above the value. -/
  floor : α → Except NumberError Int
  /-- The integer part, towards zero. -/
  truncate : α → Except NumberError Int

/-- An exact integer, or a value of an approximating arithmetic. -/
inductive Number (α : Type) where
  | whole (n : Int)
  | real (x : α)
  deriving DecidableEq, Repr

namespace Number

variable {α : Type} [Arithmetic α]

instance : Coe Int (Number α) := ⟨whole⟩

-- ---------------------------------------------------------------------------
-- Mixed operations
-- ---------------------------------------------------------------------------

/-- The number in the approximating arithmetic. -/
def toReal : Number α → Except NumberError α
  | whole n => Arithmetic.ofInt n
  | real x => .ok x

/-- Two integers combine by `exact`; otherwise both sides are converted, left first. -/
def combine (exact : Int → Int → Int) (approximate : α → α → α) :
    Number α → Number α → Except NumberError (Number α)
  | whole m, whole n => .ok (whole (exact m n))
  | whole m, real y => do return real (approximate (← Arithmetic.ofInt m) y)
  | real x, whole n => do return real (approximate x (← Arithmetic.ofInt n))
  | real x, real y => .ok (real (approximate x y))

def add : Number α → Number α → Except NumberError (Number α) :=
  combine (· + ·) Arithmetic.add

def sub : Number α → Number α → Except NumberError (Number α) :=
  combine (· - ·) Arithmetic.sub

def mul : Number α → Number α → Except NumberError (Number α) :=
  combine (· * ·) Arithmetic.mul

-- ---------------------------------------------------------------------------
-- Exact comparison
-- ---------------------------------------------------------------------------

/-- The order of two numbers by their exact values; `none` beside an undefined one. -/
def compare? : Number α → Number α → Option Ordering
  | whole m, whole n => some (Ord.compare m n)
  | whole m, real y => (Arithmetic.compareInt? y m).map Ordering.swap
  | real x, whole n => Arithmetic.compareInt? x n
  | real x, real y => Arithmetic.compare? x y

def lt (x y : Number α) : Bool := compare? x y == some .lt

def le (x y : Number α) : Bool := compare? x y == some .lt || compare? x y == some .eq

/-- The integer part, towards zero. -/
def truncate : Number α → Except NumberError Int
  | whole n => .ok n
  | real x => Arithmetic.truncate x

end Number

end JoinPlanner
