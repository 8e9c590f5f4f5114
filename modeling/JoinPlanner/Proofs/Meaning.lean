import JoinPlanner.Proofs.UniqueJoins
import Mathlib.Order.Lattice

/-!
# JoinPlanner — what predicates mean

A predicate holds or not, once all columns have values. Values are ordered, and which of
them match which patterns is given; a join with a subplan holds or not as a whole.

* `Comparison.Relates`    — an operator as a relation of values.
* `Interpretation.Holds`  — the truth of a predicate.
* `relates_converse`      — the converse of an operator relates the exchanged values.
  Pattern matching is taken for its own converse, so it has to be symmetric here.
* `holds_flipped`         — exchanging the sides of a reversible predicate keeps its meaning.
* `holds_of_executes`     — an order means the same as the predicates of the query.
-/

namespace JoinPlanner

universe u

variable {V : Type u}

-- ---------------------------------------------------------------------------
-- Operators
-- ---------------------------------------------------------------------------

/-- The relation of values that an operator stands for. -/
def Comparison.Relates [LinearOrder V] (matching : V → V → Prop) : Comparison → V → V → Prop
  | .equal, a, b => a = b
  | .notEqual, a, b => a ≠ b
  | .less, a, b => a < b
  | .lessEqual, a, b => a ≤ b
  | .greater, a, b => b < a
  | .greaterEqual, a, b => b ≤ a
  | .like, a, b => matching a b

theorem Comparison.relates_converse [LinearOrder V] {matching : V → V → Prop} {op : Comparison}
    {a b : V} (hLike : op = .like → (matching a b ↔ matching b a)) :
    op.converse.Relates matching b a ↔ op.Relates matching a b := by
  cases op with
  | equal => exact eq_comm
  | notEqual => exact ne_comm
  | less => exact Iff.rfl
  | lessEqual => exact Iff.rfl
  | greater => exact Iff.rfl
  | greaterEqual => exact Iff.rfl
  | like => exact (hLike rfl).symm

-- ---------------------------------------------------------------------------
-- Predicates
-- ---------------------------------------------------------------------------

/-- Values of all columns, the pairs that match, and the joins with subplans that hold. -/
structure Interpretation (V : Type u) where
  value : Operand → V
  matching : V → V → Prop
  subplan : Predicate → Prop

namespace Interpretation

/-- Whether a predicate holds. -/
def Holds [LinearOrder V] (i : Interpretation V) (p : Predicate) : Prop :=
  match p.kind with
  | .subplan => i.subplan p
  | .table => p.operator.Relates i.matching (i.value p.left) (i.value p.right)

/-- If the predicate matches patterns, its values match both ways or not at all. -/
def Reversible (i : Interpretation V) (p : Predicate) : Prop :=
  p.kind = .table → p.operator = .like →
    (i.matching (i.value p.left) (i.value p.right) ↔
      i.matching (i.value p.right) (i.value p.left))

variable [LinearOrder V] {i : Interpretation V} {p q : Predicate}

theorem holds_flipped (h : i.Reversible p) : i.Holds p.flipped ↔ i.Holds p := by
  obtain ⟨kind, left, operator, right⟩ := p
  cases kind with
  | subplan => exact Iff.rfl
  | table => exact Comparison.relates_converse (h rfl)

/-- Both orientations of a reversible join mean the same. -/
theorem holds_of_sameJoin (h : i.Reversible p) (hSame : q.SameJoin p) :
    i.Holds q ↔ i.Holds p := by
  rcases hSame with rfl | rfl
  · exact Iff.rfl
  · exact holds_flipped h

-- ---------------------------------------------------------------------------
-- Orders
-- ---------------------------------------------------------------------------

/--
An order of the unique joins of a query means the same as its predicates, if each of these
is executed as given or is reversible.
-/
theorem holds_of_executes {unique : UniqueJoins} {predicates order : List Predicate}
    (hUnique : unique.Collects predicates) (hOrder : Executes order unique.joins)
    (hKept : ∀ p ∈ predicates, p ∈ order ∨ i.Reversible p) :
    (∀ p ∈ predicates, i.Holds p) ↔ ∀ q ∈ order, i.Holds q := by
  constructor
  · intro h q hq
    obtain ⟨p, hp, hSame⟩ := exists_sameJoin_of_mem hOrder hq
    have hGiven := hUnique.subset p hp
    rcases hKept p hGiven with hMem | hReversible
    · -- a join that is executed as given is not executed in another orientation
      rw [eq_of_mem_executes hOrder hUnique.distinct hp hq hMem hSame (.refl p)]
      exact h p hGiven
    · exact (holds_of_sameJoin hReversible hSame).mpr (h p hGiven)
  · intro h p hp
    rcases hKept p hp with hMem | hReversible
    · exact h p hMem
    · -- the predicate may have been left out, but then its join is executed
      obtain ⟨r, hr, hRepeated⟩ := hUnique.cover p hp
      obtain ⟨q, hq, hSame⟩ := exists_mem_of_executes hOrder hr
      exact (holds_of_sameJoin hReversible (hSame.trans hRepeated.symm)).mp (h q hq)

end Interpretation

end JoinPlanner
