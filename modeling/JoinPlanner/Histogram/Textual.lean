import JoinPlanner.Histogram.Basic

/-!
# JoinPlanner — histograms of texts

A text counts as the number whose digits are its first four characters, in base 256.
Characters that are no digits of that base are taken for the largest one, missing ones
for zero.

* `leadingNumber` — the number of a text.
* `TextHistogram` — a histogram over all such numbers.
-/

namespace JoinPlanner

/-- How many characters of a text count. -/
def leadingLength : Nat := 4

/-- The base of the digits that characters stand for. -/
def leadingBase : Nat := 256

/-- The digit of the character at some position. -/
def leadingDigit (cs : List Char) (position : Nat) : Nat :=
  match cs[position]? with
  | some c => min c.toNat (leadingBase - 1)
  | none => 0

/-- The number of a text. -/
def leadingNumber (text : String) : Nat :=
  (List.range leadingLength).foldl
    (fun value i => value * leadingBase + leadingDigit text.toList i) 0

/-- A histogram of texts. -/
structure TextHistogram (α : Type) where
  inner : Histogram α
  deriving Repr

namespace TextHistogram

variable {α : Type} [Arithmetic α]

/-- An empty histogram over the numbers of all texts. -/
def create (buckets : Int) : Outcome (TextHistogram α) :=
  return ⟨← Histogram.create buckets 0 (Nat.pow leadingBase leadingLength - 1 : Nat)⟩

/-- The histogram with one more text. -/
def add (h : TextHistogram α) (text : String) : Outcome (TextHistogram α) :=
  return ⟨← h.inner.add (leadingNumber text)⟩

/-- Adds texts in order; the first one that cannot be added ends it with its error. -/
def addAll (h : TextHistogram α) (texts : List String) : TextHistogram α × Outcome Unit :=
  let (inner, outcome) := h.inner.addAll (texts.map fun t => (leadingNumber t : Int))
  (⟨inner⟩, outcome)

/-- The estimated fraction of texts `x` with `x op text`. -/
def estimate (h : TextHistogram α) (op : Comparison) (text : String) : Outcome α :=
  h.inner.estimate op (.whole (leadingNumber text))

end TextHistogram

end JoinPlanner
