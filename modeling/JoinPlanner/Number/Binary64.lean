import JoinPlanner.Number.Arithmetic

/-!
# JoinPlanner — doubles

Doubles as plain data, so that every operation can be reasoned about. A finite
double is a sign and a natural number of *units*, one unit being the smallest
positive double, `2 ^ -1074`. Every operation computes its exact value as a
quotient of units and rounds it once.

* `roundHalfEven`       — the integer nearest to a quotient, ties to the even one.
* `Binary64.ofQuotient` — the double nearest to a quotient, ties to the even
  significand, overflow to infinity.
* `instArithmeticBinary64` — doubles as an approximating arithmetic.
-/

namespace JoinPlanner

/-- The integer nearest to `num / den`; of two equally near ones, the even one. -/
def roundHalfEven (num den : Nat) : Nat :=
  let q := num / den
  let r := num % den
  if 2 * r < den then q
  else if den < 2 * r then q + 1
  else if q % 2 = 0 then q else q + 1

/-- A double. `finite negative units` has the value `± units · 2 ^ -1074`. -/
inductive Binary64 where
  | nan
  | infinite (negative : Bool)
  | finite (negative : Bool) (units : Nat)
  deriving DecidableEq, Repr

namespace Binary64

/-- The number of units in one. -/
def unitsPerOne : Nat := Nat.pow 2 1074

/-- The first magnitude, in units, that no finite double reaches. -/
def overflowUnits : Nat := Nat.pow 2 2098

def zero : Binary64 := finite false 0

def one : Binary64 := finite false unitsPerOne

/-- Whether a double is zero, of either sign. -/
def isZero : Binary64 → Bool
  | finite _ units => units == 0
  | _ => false

/--
How many low bits of a magnitude do not fit: a significand has 53 bits, and
magnitudes below `2 ^ 53` units are exact.
-/
def spareBits (units : Nat) : Nat := Nat.log2 units - 52

/-- The magnitude in units that is nearest to `num / den` units. -/
def nearestUnits (num den : Nat) : Nat :=
  let step := Nat.pow 2 (spareBits (num / den))
  roundHalfEven num (den * step) * step

/-- The double nearest to `± num / den` units. -/
def ofQuotient (negative : Bool) (num den : Nat) : Binary64 :=
  let units := nearestUnits num den
  if units < overflowUnits then finite negative units else infinite negative

/-- A signed number of units, whose zero takes the given sign. -/
def ofUnits (zeroSign : Bool) (units : Int) : Binary64 :=
  if units = 0 then finite zeroSign 0
  else ofQuotient (decide (units < 0)) units.natAbs 1

/-- The signed number of units of a finite double. -/
def signedUnits (negative : Bool) (units : Nat) : Int :=
  if negative then -(units : Int) else units

/-- An infinite result of a conversion is a failure. -/
def finiteOr (failure : NumberError) : Binary64 → Except NumberError Binary64
  | infinite _ => .error failure
  | x => .ok x

-- ---------------------------------------------------------------------------
-- Operations
-- ---------------------------------------------------------------------------

def neg : Binary64 → Binary64
  | nan => nan
  | infinite s => infinite (!s)
  | finite s m => finite (!s) m

/-- An exact sum of zero is negative only if both terms are negative. -/
def add : Binary64 → Binary64 → Binary64
  | nan, _ => nan
  | _, nan => nan
  | infinite s, infinite t => if s = t then infinite s else nan
  | infinite s, finite _ _ => infinite s
  | finite _ _, infinite t => infinite t
  | finite s m, finite t n => ofUnits (s && t) (signedUnits s m + signedUnits t n)

def sub (x y : Binary64) : Binary64 := add x (neg y)

def mul : Binary64 → Binary64 → Binary64
  | nan, _ => nan
  | _, nan => nan
  | infinite s, infinite t => infinite (s ^^ t)
  | infinite s, finite t n => if n = 0 then nan else infinite (s ^^ t)
  | finite s m, infinite t => if m = 0 then nan else infinite (s ^^ t)
  | finite s m, finite t n => ofQuotient (s ^^ t) (m * n) unitsPerOne

def div : Binary64 → Binary64 → Binary64
  | nan, _ => nan
  | _, nan => nan
  | infinite _, infinite _ => nan
  | infinite s, finite t _ => infinite (s ^^ t)
  | finite s _, infinite t => finite (s ^^ t) 0
  | finite s m, finite t n =>
    if n = 0 then (if m = 0 then nan else infinite (s ^^ t))
    else ofQuotient (s ^^ t) (m * unitsPerOne) n

-- ---------------------------------------------------------------------------
-- Order
-- ---------------------------------------------------------------------------

def compare? : Binary64 → Binary64 → Option Ordering
  | nan, _ => none
  | _, nan => none
  | infinite s, infinite t => some (if s = t then .eq else if s then .lt else .gt)
  | infinite s, finite _ _ => some (if s then .lt else .gt)
  | finite _ _, infinite t => some (if t then .gt else .lt)
  | finite s m, finite t n => some (Ord.compare (signedUnits s m) (signedUnits t n))

def compareInt? : Binary64 → Int → Option Ordering
  | nan, _ => none
  | infinite s, _ => some (if s then .lt else .gt)
  | finite s m, n => some (Ord.compare (signedUnits s m) (n * unitsPerOne))

-- ---------------------------------------------------------------------------
-- Integers
-- ---------------------------------------------------------------------------

def ofInt (n : Int) : Except NumberError Binary64 :=
  finiteOr .integerTooLarge (ofQuotient (decide (n < 0)) (n.natAbs * unitsPerOne) 1)

/-- The quotient of two integers, rounded once. -/
def quotient (m n : Int) : Except NumberError Binary64 :=
  finiteOr .quotientTooLarge
    (ofQuotient (decide (m < 0) ^^ decide (n < 0)) (m.natAbs * unitsPerOne) n.natAbs)

def floor : Binary64 → Except NumberError Int
  | nan => .error .undefinedToInteger
  | infinite _ => .error .infiniteToInteger
  | finite s m => .ok (Int.fdiv (signedUnits s m) unitsPerOne)

/-- The smallest integer not below the value. -/
def ceil (x : Binary64) : Except NumberError Int := (floor x.neg).map (-·)

def truncate : Binary64 → Except NumberError Int
  | nan => .error .undefinedToInteger
  | infinite _ => .error .infiniteToInteger
  | finite s m => .ok (Int.tdiv (signedUnits s m) unitsPerOne)

end Binary64

instance instArithmeticBinary64 : Arithmetic Binary64 where
  zero := Binary64.zero
  one := Binary64.one
  ofInt := Binary64.ofInt
  quotient := Binary64.quotient
  add := Binary64.add
  sub := Binary64.sub
  mul := Binary64.mul
  div := Binary64.div
  compare? := Binary64.compare?
  compareInt? := Binary64.compareInt?
  floor := Binary64.floor
  truncate := Binary64.truncate

end JoinPlanner
