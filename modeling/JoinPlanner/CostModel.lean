import JoinPlanner.Predicate

/-!
# JoinPlanner — costs and cardinalities

Joins are reckoned as nested loops: the outer relation is computed once, the inner
one is scanned once for each tuple of the outer one, and each pair of tuples costs
one comparison. Cardinalities follow from primary keys; for an equality of two
columns that are no keys the larger table is a coarse upper bound.

* `joinCost`        — the cost of a join with its inputs.
* `joinCardinality` — the tuples that a join of two tables produces.
-/

namespace JoinPlanner

/-- A cost: an integer, unless a double went into it. -/
abbrev Cost := Quantity

/-- A number of tuples. -/
abbrev Cardinality := Int

/-- A cost with a cardinality. -/
abbrev Estimate := Cost × Cardinality

/--
The cost of a join whose left-hand side is the outer relation. A subquery has
already been evaluated, so it is only read once.
-/
def joinCost (p : Predicate) (outerCard innerCard : Cardinality) (outerCost innerCost : Cost) :
    Except NumberError Cost := do
  if p.isSubplan then
    (← Number.add (.whole outerCard) outerCost).add innerCost
  else
    let io ← outerCost.add (← Number.mul (.whole outerCard) innerCost)
    io.add (.whole (outerCard * innerCard))

/--
The cardinality of a join of two tables. A key on one side gives each tuple of the
other side at most one partner; without an equality a fixed fraction of all pairs
passes, but no fewer than the tuples of the larger table.
-/
def joinCardinality (operator : Comparison) (leftCard rightCard : Cardinality)
    (leftKey rightKey : Bool) (leftTotal rightTotal : Cardinality) (fraction : Quantity) :
    Except NumberError Cardinality := do
  if operator.isEqual then
    if leftKey && rightKey then return min leftCard rightCard
    else if leftKey then return rightCard
    else if rightKey then return leftCard
    else return max leftTotal rightTotal
  else
    let passing ← (← Number.mul (.whole (leftCard * rightCard)) fraction).truncate
    return max passing (max leftTotal rightTotal)

/-- The fraction of all pairs that passes a join other than an equality: three tenths. -/
def defaultFraction : Quantity :=
  .real (Binary64.ofQuotient false (3 * Binary64.unitsPerOne) 10)

end JoinPlanner
