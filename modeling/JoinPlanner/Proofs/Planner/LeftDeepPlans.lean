import JoinPlanner.Proofs.Planner.Run
import JoinPlanner.Workspace

/-!
# JoinPlanner — the plans of a run are left-deep orders

Every plan that a run leaves behind executes the joins of its set, each once, in one of
its orientations, and needs no cross product. The order that is returned is the plan of
all joins.

* `order_plans_leftDeep` — the statement for all plans of a run that returns an order.
* `sampleCatalog`, `sampleStats`, `sampleJoin` — four small tables and their joins, at which
  statements about runs are tried.
-/

namespace JoinPlanner

-- ---------------------------------------------------------------------------
-- A sample
-- ---------------------------------------------------------------------------

/-- Four tables with two columns each, of one, one, two and three tuples. -/
def sampleCatalog : Catalog :=
  [("A", 1), ("B", 1), ("C", 2), ("D", 3)].foldl (fun catalog (name, tuples) =>
    (catalog.register name ⟨[⟨"id", .integer⟩, ⟨"v", .integer⟩]⟩ ""
      ((List.range tuples).map fun i => [.int i, .int i])).1) (Catalog.empty 4096)

/-- The statistics of the sample. -/
def sampleStats : Snapshot := (takeAll sampleCatalog {} false 0).outcome.toOption.getD []

/-- An equality of two columns. -/
def sampleJoin (leftTable leftColumn rightTable rightColumn : String) : Predicate :=
  ⟨.table, ⟨some leftTable, some leftColumn⟩, .equal, ⟨some rightTable, some rightColumn⟩⟩

/-- A planner that has not run yet. -/
def samplePlanner (predicates : List Predicate) : Planner :=
  ⟨UniqueJoins.ofList predicates, defaultFraction, false, {}⟩

theorem isFor_samplePlanner (predicates : List Predicate) :
    (samplePlanner predicates).IsFor predicates := rfl

/-- A repetition, parallel predicates, a self join, and a join with a subplan. -/
def sampleJoins : List Predicate :=
  [sampleJoin "A" "id" "B" "id", sampleJoin "B" "id" "A" "id", sampleJoin "A" "v" "B" "v",
    sampleJoin "C" "id" "C" "v", sampleJoin "B" "v" "C" "id",
    ⟨.subplan, ⟨some "C", some "id"⟩, .equal, ⟨none, none⟩⟩]

namespace Planner

-- ---------------------------------------------------------------------------
-- Plans of a run
-- ---------------------------------------------------------------------------

/-- The entry of a set is a left-deep order of the set. -/
structure LeftDeepEntry (joins : List Predicate) (set : JoinSet) (plan : Plan) : Prop where
  /-- The set consists of unique joins. -/
  sublist : set.members.Sublist joins
  length : plan.order.length = set.members.length
  /-- Each join of the set is executed once, in one of its orientations. -/
  once : ∀ p ∈ set.members, plan.order.countP (fun q => decide (q.SameJoin p)) = 1
  /-- Nothing else is executed. -/
  only : ∀ q ∈ plan.order, ∃ p ∈ set.members, q.SameJoin p
  /-- Every predicate after the first shares a table with an earlier one. -/
  leftDeep : LeftDeep plan.order

theorem leftDeepEntry_of_searched {s : Setting} {visit : Visit} {joins : List Predicate}
    {plans : PlanTable} (h : Searched s visit joins joins.length plans)
    (hDistinct : DistinctJoins joins) (hVisit : ∀ l, (visit l).Perm l)
    {e : JoinSet × Plan} (he : e ∈ plans.entries) : LeftDeepEntry joins e.1 e.2 := by
  have hWithin := h.sets e he
  have hPlanFor := h.planFor hDistinct.nodup hVisit hWithin (h.entry e he)
  have hMembers : DistinctJoins e.1.members := hDistinct.sublist hWithin.sublist
  exact {
    sublist := hWithin.sublist
    length := length_of_executes hPlanFor.executes
    once := fun p hp => executes_count hPlanFor.executes hMembers hp
    only := fun q hq => exists_sameJoin_of_mem hPlanFor.executes hq
    leftDeep := hPlanFor.leftDeep }

/--
A run that returns an order has kept left-deep orders only, and the returned order is the
one of all joins.
-/
theorem order_plans_leftDeep {planner : Planner} {predicates : List Predicate} {visit : Visit}
    {catalog : Catalog} {stats : Snapshot} {selectivities : Option Selectivities}
    {explained : Bool} {found : List Predicate} (hFor : planner.IsFor predicates)
    (hVisit : ∀ l, (visit l).Perm l)
    (hOrder : (planner.order visit catalog stats selectivities explained).2.outcome = .ok found) :
    ∃ plans, (planner.order visit catalog stats selectivities explained).1.last.plans = some plans ∧
      (∀ e ∈ plans.entries, LeftDeepEntry planner.joins e.1 e.2) ∧
      ((planner.joins = [] ∧ found = []) ∨
        ∃ plan, plans.get? (JoinSet.ofList planner.joins) = some plan ∧ found = plan.order) := by
  rcases order_cases hOrder with ⟨hJoins, hFound, hPlans⟩ |
    ⟨-, plans, plan, hFind, hPlans, hGet, hFound⟩
  · refine ⟨.empty, hPlans, fun e he => ?_, Or.inl ⟨hJoins, hFound⟩⟩
    cases he
  · have hSearched := searched_of_findPlans hFor hVisit hFind
    refine ⟨plans, hPlans, fun e he => ?_, Or.inr ⟨plan, hGet, hFound⟩⟩
    exact leftDeepEntry_of_searched hSearched hFor.distinct hVisit he

/-- The statement at the joins of the sample. -/
theorem order_plans_leftDeep_sample :
    ∃ found plans,
      ((samplePlanner sampleJoins).order List.reverse sampleCatalog sampleStats none
        true).2.outcome = .ok found ∧
      ((samplePlanner sampleJoins).order List.reverse sampleCatalog sampleStats none
        true).1.last.plans = some plans ∧
      (∀ e ∈ plans.entries, LeftDeepEntry (samplePlanner sampleJoins).joins e.1 e.2) ∧
      ∃ plan, plans.get? (JoinSet.ofList (samplePlanner sampleJoins).joins) = some plan ∧
        found = plan.order := by
  obtain ⟨found, hOrder⟩ := Outcome.exists_eq_ok_of_isSome (x := ((samplePlanner sampleJoins).order
    List.reverse sampleCatalog sampleStats none true).2.outcome) (by decide +kernel)
  obtain ⟨plans, hPlans, hEntries, hFound⟩ :=
    order_plans_leftDeep (isFor_samplePlanner sampleJoins) (fun l => l.reverse_perm) hOrder
  refine ⟨found, plans, hOrder, hPlans, hEntries, hFound.resolve_left fun h => ?_⟩
  have hSome : (samplePlanner sampleJoins).joins ≠ [] := by decide +kernel
  exact hSome h.1

end Planner

end JoinPlanner
