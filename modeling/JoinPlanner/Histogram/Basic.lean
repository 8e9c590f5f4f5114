import JoinPlanner.Error

/-!
# JoinPlanner — histograms

A histogram counts integers of a domain `[low, high]` in buckets of one width. An
integer `v` stands for the unit interval `[v, v + 1)`, and the values of a bucket are
taken to be spread evenly over it. The arithmetic of widths, edges and estimates is a
parameter.

* `Histogram.create`    — an empty histogram; never more buckets than integers.
* `Histogram.locate`    — the bucket of a value that may be added.
* `Histogram.addAll`   — adds values up to the first one that cannot be added.
* `Histogram.estimate`  — the fraction of values that satisfy a comparison.
-/

namespace JoinPlanner

/-- Counts of integers in buckets of one width. -/
structure Histogram (α : Type) where
  low : Int
  high : Int
  width : α
  counts : Array Nat
  /-- How many values were added. -/
  total : Nat
  deriving Repr

namespace Histogram

variable {α : Type} [Arithmetic α]

/-- An empty histogram over a domain that is not empty, with at least one bucket. -/
def create (buckets low high : Int) : Outcome (Histogram α) := do
  if high < low then throw (.invalidRange low high)
  if buckets < 1 then throw (.noBuckets buckets)
  let size := high - low + 1
  let count := min buckets size
  return { low, high, width := ← Arithmetic.quotient size count
           counts := Array.replicate count.toNat 0, total := 0 }

/-- The number of buckets. -/
def bucketCount (h : Histogram α) : Nat := h.counts.size

-- ---------------------------------------------------------------------------
-- Buckets
-- ---------------------------------------------------------------------------

/-- The bucket that a value not below the domain falls into; the last one at most. -/
def bucketIndex (h : Histogram α) (value : Number α) : Except NumberError Nat := do
  let offset ← (← value.sub (.whole h.low)).toReal
  let bucket ← Arithmetic.floor (Arithmetic.div offset h.width)
  return (min bucket (h.bucketCount - 1)).toNat

/-- The lower edge of a bucket, which is the upper edge of the one before. -/
def edge (h : Histogram α) (bucket : Nat) : Except NumberError α := do
  (← Number.add (.whole h.low) (← Number.mul (.whole bucket) (.real h.width))).toReal

/-- The count of a bucket. -/
def countOf (h : Histogram α) (bucket : Nat) : Nat := h.counts[bucket]?.getD 0

/-- The values in the buckets before the given one. -/
def countBelow (h : Histogram α) (bucket : Nat) : Nat :=
  (h.counts.toList.take bucket).foldr (· + ·) 0

/-- The values in the buckets after the given one. -/
def countAbove (h : Histogram α) (bucket : Nat) : Nat :=
  (h.counts.toList.drop (bucket + 1)).foldr (· + ·) 0

-- ---------------------------------------------------------------------------
-- Adding
-- ---------------------------------------------------------------------------

/-- The bucket of a value that may be added. -/
def locate (h : Histogram α) (value : Int) : Outcome Nat := do
  if value < h.low ∨ h.high < value then throw (.outsideDomain value h.low h.high)
  h.bucketIndex (.whole value)

/-- One more value in a bucket. -/
def increment (h : Histogram α) (bucket : Nat) : Histogram α :=
  { h with counts := h.counts.modify bucket (· + 1), total := h.total + 1 }

/-- The histogram with one more value. -/
def add (h : Histogram α) (value : Int) : Outcome (Histogram α) :=
  return h.increment (← h.locate value)

/-- Adds values in order; the first one that cannot be added ends it with its error. -/
def addAll (h : Histogram α) : List Int → Histogram α × Outcome Unit
  | [] => (h, .ok ())
  | value :: rest =>
    match h.locate value with
    | .ok bucket => (h.increment bucket).addAll rest
    | .error e => (h, .error e)

-- ---------------------------------------------------------------------------
-- Estimating
-- ---------------------------------------------------------------------------

/-- Cuts a fraction off at zero and one. -/
def clamp (x : α) : α :=
  let raised := if Arithmetic.compare? Arithmetic.zero x == some .gt then Arithmetic.zero else x
  if Arithmetic.compare? Arithmetic.one raised == some .lt then Arithmetic.one else raised

/-- A number of values as a fraction of all values. -/
def fractionOf (h : Histogram α) (matching : α) : Except NumberError α :=
  return Arithmetic.div matching (← Arithmetic.ofInt h.total)

/-- The fraction of values equal to the given one. -/
def equalFraction (h : Histogram α) (value : Number α) : Except NumberError α := do
  if value.lt (.whole h.low) || Number.lt (.whole h.high) value then return Arithmetic.zero
  let bucket ← h.bucketIndex value
  let count ← Arithmetic.ofInt (h.countOf bucket)
  h.fractionOf (Arithmetic.div count h.width)

/-- A part of a bucket's values together with whole buckets, as a fraction of all values. -/
def partialFraction (h : Histogram α) (bucket : Nat) (part : α) (wholeBuckets : Nat) :
    Except NumberError α := do
  let share := Arithmetic.mul (clamp (Arithmetic.div part h.width))
    (← Arithmetic.ofInt (h.countOf bucket))
  h.fractionOf (Arithmetic.add share (← Arithmetic.ofInt wholeBuckets))

/-- The fraction of values at a boundary or above. -/
def fractionFrom (h : Histogram α) (boundary : Number α) : Except NumberError α := do
  if boundary.le (.whole h.low) then return Arithmetic.one
  if Number.lt (.whole h.high) boundary then return Arithmetic.zero
  let bucket ← h.bucketIndex boundary
  let part ← (← Number.sub (.real (← h.edge (bucket + 1))) boundary).toReal
  h.partialFraction bucket part (h.countAbove bucket)

/-- The fraction of values below a boundary. -/
def fractionBelow (h : Histogram α) (boundary : Number α) : Except NumberError α := do
  if boundary.le (.whole h.low) then return Arithmetic.zero
  if Number.lt (.whole h.high) boundary then return Arithmetic.one
  let bucket ← h.bucketIndex boundary
  let part ← (← boundary.sub (.real (← h.edge bucket))).toReal
  h.partialFraction bucket part (h.countBelow bucket)

/-- The number after a value: where the unit interval of an integer ends. -/
def next (value : Number α) : Except NumberError (Number α) := value.add (.whole 1)

/--
The estimated fraction of values `x` with `x op value`, zero as long as there are
none.
-/
def estimate (h : Histogram α) (op : Comparison) (value : Number α) : Outcome α := do
  if op = .like then throw (.unsupportedOperator op)
  if h.total = 0 then return Arithmetic.zero
  match op with
  | .equal => h.equalFraction value
  | .notEqual => return Arithmetic.sub Arithmetic.one (← h.equalFraction value)
  | .greater => h.fractionFrom (← next value)
  | .greaterEqual => h.fractionFrom value
  | .less => h.fractionBelow value
  | .lessEqual => h.fractionBelow (← next value)
  | .like => throw (.unsupportedOperator op)

/-- The estimate for a value that is not known: everything passes. -/
def unknownEstimate (_ : Histogram α) : α := Arithmetic.one

end Histogram

end JoinPlanner
