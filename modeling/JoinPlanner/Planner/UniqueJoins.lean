import JoinPlanner.Association
import JoinPlanner.Trace

/-!
# JoinPlanner — unique joins

A predicate and its exchanged form are the same join. Of several such predicates only
the first is kept.

* `UniqueJoins.ofList`  — the joins of a list, with the join that each orientation stands for.
* `UniqueJoins.dropped` — the predicates that were left out, in order.
-/

namespace JoinPlanner

/-- Joins, none of which is another one in either orientation. -/
structure UniqueJoins where
  joins : List Predicate
  /-- The join that each orientation belongs to. -/
  representatives : Association Predicate Predicate
  /-- Predicates that were given again. -/
  dropped : List Predicate
  deriving Repr

namespace UniqueJoins

def empty : UniqueJoins := ⟨[], [], []⟩

/-- Adds a predicate, unless it is there in one of its orientations. -/
def add (unique : UniqueJoins) (p : Predicate) : UniqueJoins :=
  if unique.representatives.has p then { unique with dropped := unique.dropped ++ [p] }
  else
    { unique with
      joins := unique.joins ++ [p]
      representatives := (unique.representatives.put p p).put p.flipped p }

/-- The joins of a list of predicates. -/
def ofList (predicates : List Predicate) : UniqueJoins := predicates.foldl add empty

/-- The join that a predicate belongs to. -/
def representative? (unique : UniqueJoins) (p : Predicate) : Option Predicate :=
  unique.representatives.get? p

/-- A warning for each predicate that was left out. -/
def warnings (unique : UniqueJoins) : List Event :=
  unique.dropped.map fun p => .warning (.duplicateJoin p)

end UniqueJoins

end JoinPlanner
