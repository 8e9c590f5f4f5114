import JoinPlanner.Predicate

/-!
# JoinPlanner — join methods

The methods by which an execution layer computes a join. The search for an order
always reckons with nested loops; afterwards equalities can be hashed, if the
execution layer is able to.

* `JoinMethod.choose`    — the method of one join.
* `JoinMethod.chooseAll` — the methods of an order, which stays as it is.
-/

namespace JoinPlanner

/-- How a join is computed. -/
inductive JoinMethod where
  | nestedLoop
  | hash
  deriving DecidableEq, Repr

namespace JoinMethod

/-- All methods. -/
def all : List JoinMethod := [nestedLoop, hash]

/-- The name shown in plans. -/
def toText : JoinMethod → String
  | nestedLoop => "NLJ"
  | hash => "Hash Join"

/-- The name in one word. -/
def name : JoinMethod → String
  | nestedLoop => "NestedLoopJoin"
  | hash => "HashJoin"

/-- The method of the given name. -/
def ofName? (text : String) : Option JoinMethod := all.find? (·.name == text)

/-- Equalities are hashed if that is supported; all else takes nested loops. -/
def choose (supported : List JoinMethod) (p : Predicate) : JoinMethod :=
  if p.operator.isEqual && supported.contains hash then hash else nestedLoop

/-- The method of each join of an order. -/
def chooseAll (supported : List JoinMethod) (order : List Predicate) :
    List (Predicate × JoinMethod) :=
  order.map fun p => (p, choose supported p)

end JoinMethod

end JoinPlanner
