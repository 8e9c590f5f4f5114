import JoinPlanner.Explanation
import JoinPlanner.Planner.UniqueJoins
import JoinPlanner.Search.Levels

/-!
# JoinPlanner — the planner

A planner orders the joins of a query. It remembers the plans and the estimates of its
last run, so that the order can be explained afterwards.

* `Planner.create`  — a planner for a list of predicates.
* `Planner.order`   — the order that a search selects, and the planner afterwards.
* `Planner.explain` — the tree of the last order.
-/

namespace JoinPlanner

/-- What is remembered of the last run. -/
structure LastRun where
  plans : Option PlanTable := none
  /-- The order, if the run got that far. -/
  order : Option (List Predicate) := none
  /-- The estimates for the scan of each table. -/
  scans : ScanEstimates := []
  explanation : Option Explanation := none
  deriving Repr

/-- A planner for some joins. -/
structure Planner where
  unique : UniqueJoins
  fraction : Quantity
  verbose : Bool
  last : LastRun
  deriving Repr

namespace Planner

/-- A planner that has not run yet. Predicates that repeat a join draw a warning. -/
def create (predicates : List Predicate) (fraction : Quantity) (verbose : Bool) :
    Traced Planner :=
  let unique := UniqueJoins.ofList predicates
  ⟨unique.warnings, .ok { unique, fraction, verbose, last := {} }⟩

def joins (planner : Planner) : List Predicate := planner.unique.joins

/-- The plan for all joins, if the last run found it. -/
def lastPlan? (planner : Planner) : Option Plan :=
  planner.last.plans.bind fun plans => plans.get? (JoinSet.ofList planner.joins)

/-- A short description. -/
def describe (planner : Planner) : String :=
  s!"JoinOrderOptimizer(joins={planner.joins.length}, verbose="
    ++ (Value.flag planner.verbose).display ++ ")"

-- ---------------------------------------------------------------------------
-- Explaining
-- ---------------------------------------------------------------------------

/-- The join that an orientation belongs to, which has to be one of the planner's. -/
def representative (planner : Planner) (p : Predicate) : Outcome Predicate :=
  match planner.unique.representative? p with
  | some join => .ok join
  | none => .error (.unknownJoin p.toText)

/-- The estimates of the set of joins that some predicates belong to. -/
def setEstimate (planner : Planner) (plans : PlanTable) (predicates : List Predicate) :
    Outcome Estimate := do
  let joins ← predicates.mapM planner.representative
  match plans.get? (JoinSet.ofList joins) with
  | some plan => return (plan.cost, plan.cardinality)
  | none => throw .missingPlan

/-- The estimates after each join of an order. -/
def stepEstimates (planner : Planner) (plans : PlanTable) (order : List Predicate) :
    Outcome (List Estimate) :=
  (List.range' 1 order.length).mapM fun size => planner.setEstimate plans (order.take size)

/-- The tree of the last order with its estimates. -/
def explain (planner : Planner) : Outcome Explanation :=
  match planner.last.order, planner.last.plans with
  | some order, some plans => do
    Explanation.ofOrder order (← planner.stepEstimates plans order) planner.last.scans
  | _, _ => .error .notOrdered

/-- Explains the last order and remembers the explanation. -/
def remember (planner : Planner) : Planner × Outcome Explanation :=
  match planner.explain with
  | .ok e => ({ planner with last := { planner.last with explanation := some e } }, .ok e)
  | .error e => (planner, .error e)

-- ---------------------------------------------------------------------------
-- Ordering
-- ---------------------------------------------------------------------------

/-- The tables of the joins are known and no cross product is needed. -/
def checkInputs (planner : Planner) (catalog : Catalog) (stats : Snapshot)
    (selectivities : Option Selectivities) : Outcome Unit := do
  (← checkKnown catalog stats selectivities planner.joins).ensure
  (← checkLinked planner.joins).ensure

/-- Without filters all tuples of all tables pass. -/
def noFilters (joins : List Predicate) : Selectivities :=
  (Predicate.tablesIn joins).filterMap fun table => table.map fun t => (t, .real Binary64.one)

/-- What the search for an order reckons with. -/
def setting (planner : Planner) (catalog : Catalog) (stats : Snapshot)
    (selectivities : Option Selectivities) : Setting :=
  { catalog, stats, fraction := planner.fraction
    selectivities := selectivities.getD (noFilters planner.joins) }

/-- The scan estimates of all tables of the joins. -/
def scansOf (s : Setting) (joins : List Predicate) : Outcome ScanEstimates :=
  (Predicate.tablesIn joins).mapM fun table => return (table, ← s.scanOf table)

/-- The plans of all sets of joins, if the joins pass the checks. -/
def findPlans (planner : Planner) (visit : Visit) (catalog : Catalog) (stats : Snapshot)
    (selectivities : Option Selectivities) : Traced PlanTable := do
  (planner.checkInputs catalog stats selectivities : Outcome Unit)
  Traced.progress planner.verbose s!"Optimizing {planner.joins.length} joins"
  (planner.setting catalog stats selectivities).search visit planner.verbose planner.joins

/-- The line about the selected plan. -/
def selection (plan : Plan) : String :=
  "Selected join order " ++ (Value.list (plan.order.map fun p => .text p.toText)).display
    ++ " with cost " ++ plan.cost.toText

/-- What a run without an explanation leaves behind, and its order. -/
def run (planner : Planner) (visit : Visit) (catalog : Catalog) (stats : Snapshot)
    (selectivities : Option Selectivities) : LastRun × Traced (List Predicate) :=
  if planner.joins.isEmpty then
    ({ plans := some .empty, order := some [] }, do
      Traced.progress planner.verbose "No joins to optimize"
      return [])
  else
    let found := planner.findPlans visit catalog stats selectivities
    match found.outcome with
    | .error e => ({}, ⟨found.events, .error e⟩)
    | .ok plans =>
      match plans.get? (JoinSet.ofList planner.joins) with
      | none =>
        ({ plans := some plans }, ⟨found.events, do
          throw (.noFeasiblePlan (← linkedGroups planner.joins))⟩)
      | some plan =>
        match scansOf (planner.setting catalog stats selectivities) planner.joins with
        | .error e =>
          ({ plans := some plans, order := some plan.order }, ⟨found.events, .error e⟩)
        | .ok scans =>
          ({ plans := some plans, order := some plan.order, scans },
            ⟨found.events ++ (Traced.progress planner.verbose (selection plan)).events,
              .ok plan.order⟩)

/--
The left-deep order that a search selects, and the planner afterwards. Nothing is
remembered of earlier runs. An explanation that is asked for is shown, unless there
are no joins.
-/
def order (planner : Planner) (visit : Visit) (catalog : Catalog) (stats : Snapshot)
    (selectivities : Option Selectivities) (explained : Bool) :
    Planner × Traced (List Predicate) :=
  let (last, ordered) := planner.run visit catalog stats selectivities
  let planner := { planner with last }
  match ordered.outcome, explained with
  | .ok order, true =>
    let (planner, explanation) := planner.remember
    match explanation with
    | .error e => (planner, ⟨ordered.events, .error e⟩)
    | .ok e =>
      let shown := if order.isEmpty then [] else [.report e.toText]
      (planner, ⟨ordered.events ++ shown, .ok order⟩)
  | _, _ => (planner, ordered)

/-- Drops all plans of the last run. -/
def clearPlans (planner : Planner) : Planner × Outcome Unit :=
  match planner.last.plans with
  | none => (planner, .error .noPlans)
  | some _ => ({ planner with last := { planner.last with plans := some .empty } }, .ok ())

end Planner

end JoinPlanner
