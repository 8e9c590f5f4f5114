import JoinPlanner.Search.ChoiceTree
import JoinPlanner.Search.Extension
import JoinPlanner.Subsets
import JoinPlanner.Trace

/-!
# JoinPlanner — the search

The search goes through all sets of joins by size and keeps one plan for each: the
cheapest one that extends the kept plan of the set without one join by that join. Sets
without a plan cannot be joined without a cross product.

* `Setting.candidate` — the plan of a set that executes a given join last.
* `Setting.bestPlan`  — the cheapest candidate of a set.
* `Setting.search`    — the plans of all sets.

The joins of a set are tried in an order that the caller may choose. It decides only
which one of several equally cheap candidates is kept.
-/

namespace JoinPlanner

/-- The cost that nothing is known to undercut yet. -/
def unbounded : Cost := .real (.infinite false)

/-- The order in which the joins of a set are tried as its last one. -/
abbrev Visit := List Predicate → List Predicate

namespace Setting

-- ---------------------------------------------------------------------------
-- One set
-- ---------------------------------------------------------------------------

/--
The plan of a set that executes one of its joins last, if it is cheaper than a bound.
The rest of the set must have a plan, unless it is empty.
-/
def candidate (s : Setting) (known : JoinSet → Option Plan) (set : JoinSet) (bound : Cost)
    (join : Predicate) : Outcome (Option Plan) :=
  let rest := set.without join
  if rest.members.isEmpty then s.extendBelow bound none join
  else
    match known rest with
    | none => .ok none
    | some plan => s.extendBelow bound (some plan) join

/-- The better one of the best plan so far and the candidate with the given last join. -/
def improve (s : Setting) (known : JoinSet → Option Plan) (set : JoinSet) (best : Option Plan)
    (join : Predicate) : Outcome (Option Plan) := do
  let bound := (best.map Plan.cost).getD unbounded
  return (← s.candidate known set bound join).or best

/-- The cheapest candidate of a set, given the plans of the sets with one join less. -/
def bestPlan (s : Setting) (visit : Visit) (known : JoinSet → Option Plan) (set : JoinSet) :
    Outcome (Option Plan) :=
  (visit set.members).foldlM (s.improve known set) none

-- ---------------------------------------------------------------------------
-- All sets
-- ---------------------------------------------------------------------------

/-- The plans of some sets, given the plans of the sets with one join less. -/
def plansOf (s : Setting) (visit : Visit) (known : JoinSet → Option Plan) :
    List (List Predicate) → Outcome (List (JoinSet × Plan))
  | [] => .ok []
  | members :: rest => do
    let set : JoinSet := ⟨members⟩
    match ← s.bestPlan visit known set with
    | none => s.plansOf visit known rest
    | some plan => return (set, plan) :: (← s.plansOf visit known rest)

end Setting

/-- What a search has found: all plans so far, and those of the last size by choice. -/
structure Found where
  plans : PlanTable
  last : ChoiceTree Plan
  deriving Repr

namespace Setting

/-- Adds the plans of all sets of one size, and tells how many there are. -/
def addLevel (s : Setting) (visit : Visit) (verbose : Bool) (joins : List Predicate)
    (found : Found) (size : Nat) : Traced Found := do
  let known (set : JoinSet) : Option Plan := found.last.get? (choiceOf joins set)
  let level ← (s.plansOf visit known (subsetsOf size joins) : Outcome _)
  Traced.progress verbose s!"Found plans for {level.length} sets of {size} joins"
  return { plans := found.plans.append level, last := .ofPlans joins level }

/-- The plans of all sets of distinct joins. -/
def search (s : Setting) (visit : Visit) (verbose : Bool) (joins : List Predicate) :
    Traced PlanTable := do
  let found ← (List.range' 1 joins.length).foldlM (s.addLevel visit verbose joins)
    ⟨.empty, .empty⟩
  return found.plans

end Setting

end JoinPlanner
