import JoinPlanner.Proofs.Planner.CheapestOrder
import JoinPlanner.Proofs.Planner.SecondRun
import JoinPlanner.Proofs.Search.Flips

/-!
# JoinPlanner — the orientation of the predicates

If the predicates of a query form a forest, it does not matter in which orientation they are
given: every set has plans of the same cost and cardinality. This takes costs that can be
compared. An undefined cost is not undercut by the other orientation, so it depends on the
orientation that is given whether a join has one.

* `order_turned_undefined` — a run that returns an order in one orientation only.
* `order_turned`           — the statement for defined costs.
* `order_turned_tree`      — two joins and a subplan, with all joins exchanged.
-/

namespace JoinPlanner.Planner

open Outcome

variable {planner planner' : Planner} {predicates : List Predicate} {visit visit' : Visit}
  {catalog : Catalog} {stats : Snapshot} {selectivities : Option Selectivities}
  {explained : Bool} {found : List Predicate} {plans : PlanTable}

-- ---------------------------------------------------------------------------
-- Undefined costs
-- ---------------------------------------------------------------------------

/-- Two tables of two pages and of one page. -/
def dearCatalog : Catalog :=
  [("A", 2), ("B", 1)].foldl (fun catalog (name, tuples) =>
    (catalog.register name ⟨[⟨"id", .integer⟩, ⟨"v", .integer⟩]⟩ ""
      ((List.range tuples).map fun i => [.int i, .int i])).1) (Catalog.empty 16)

/-- The cost of a page of the first table is so large that two of them cost infinitely much. -/
def dearStats : Snapshot :=
  ((takeAll dearCatalog {} false 0).outcome.toOption.getD []).map fun (name, stats) =>
    if name = "A" then
      (name, { stats with
        ioCost := .real (Binary64.ofQuotient false (10 ^ 308 * Binary64.unitsPerOne) 1) })
    else (name, stats)

/-- No tuple of the second table is read. -/
def noneOfB : Selectivities := [("A", .whole 1), ("B", .whole 0)]

/-- The table that is not read is the outer one. -/
def dearJoin : Predicate := sampleJoin "B" "id" "A" "id"

theorem forest_dearJoin : Forest [dearJoin] := by
  refine Forest.nil.cons (a := "B") (b := "A") ⟨rfl, Or.inl ⟨rfl, rfl⟩⟩ (by decide) ?_
  intro q hq
  cases hq

/--
Scanning an infinitely costly table for no tuple has an undefined cost. If that is the given
orientation, its plan is kept; otherwise the infinite cost of the given one is not undercut
and there is no plan.
-/
theorem order_turned_undefined :
    Forest [dearJoin] ∧
    (∃ found, ((samplePlanner [dearJoin]).order List.reverse dearCatalog dearStats (some noneOfB)
      false).2.outcome = .ok found) ∧
    (∀ plans, ((samplePlanner [dearJoin]).order List.reverse dearCatalog dearStats (some noneOfB)
      false).1.last.plans = some plans →
        ∀ members, Within (samplePlanner [dearJoin]).joins (samplePlanner [dearJoin]).joins.length
          members → ((samplePlanner [dearJoin]).setting dearCatalog dearStats
            (some noneOfB)).SameCards plans.get? ⟨members⟩) ∧
    ∃ e, ((samplePlanner [dearJoin.flipped]).order List.reverse dearCatalog dearStats
      (some noneOfB) false).2.outcome = .error e ∧ e.failure.kind = .noFeasiblePlan := by
  have hCards : (((samplePlanner [dearJoin]).order List.reverse dearCatalog dearStats
      (some noneOfB) false).1.last.plans.all fun plans =>
        decide (∀ members, Within (samplePlanner [dearJoin]).joins
          (samplePlanner [dearJoin]).joins.length members →
            ((samplePlanner [dearJoin]).setting dearCatalog dearStats (some noneOfB)).SameCards
              plans.get? ⟨members⟩)) = true := by decide +kernel
  have hTold : ((samplePlanner [dearJoin.flipped]).order List.reverse dearCatalog dearStats
      (some noneOfB) false).2.outcome.told? = some (.noFeasiblePlan,
        "No join order without cross products exists. Disconnected tables: A, B") := by
    decide +kernel
  obtain ⟨e, hError, hKind, -⟩ := exists_eq_error_of_told hTold
  refine ⟨forest_dearJoin, exists_eq_ok_of_isSome (by decide +kernel), fun plans hPlans => ?_,
    e, hError, hKind⟩
  exact of_decide_eq_true ((Option.all_eq_true _ _).mp hCards plans hPlans)

-- ---------------------------------------------------------------------------
-- Defined costs
-- ---------------------------------------------------------------------------

theorem corresponding_turned (flips : Predicate → Bool)
    (hPerm : planner'.joins = planner.joins.map (Predicate.turned flips))
    (hFraction : planner'.fraction = planner.fraction) :
    Corresponding planner planner' (Predicate.turned flips) :=
  ⟨.of_eq hPerm, hFraction, fun p _ _ => (p.sameJoin_turned flips).mem_tables_iff,
    fun p _ hNodes => hNodes.of_sameJoin (p.sameJoin_turned flips)⟩

/-- The predicates of a forest that a run has accepted are distinct joins. -/
theorem distinctJoins_of_order (hFor : planner.IsFor predicates) (hNodup : predicates.Nodup)
    (hForest : Forest predicates)
    (hOrder : (planner.order visit catalog stats selectivities explained).2.outcome = .ok found) :
    DistinctJoins predicates := by
  refine hForest.distinctJoins hNodup fun p hp => ?_
  obtain ⟨q, hq, hSame⟩ := hFor.collects.cover p hp
  rcases order_cases hOrder with ⟨hNil, -⟩ | ⟨-, plans, plan, hFind, -⟩
  · rw [joins] at hNil
    rw [hNil] at hq
    cases hq
  · have hChecks := (findPlans_eq_ok_iff.mp hFind).1
    exact (hasNodes_of_checkLinked (exists_of_checks hChecks).2 q hq).of_sameJoin hSame

/--
If a run returns an order for different predicates that form a forest, the cheapest joins of
each set are equally large, and no orientation of a join has an undefined cost, then a run for
the same predicates with any of them exchanged finds plans of the same cost and cardinality for
corresponding sets. It fails only where the tuples of a join are uncounted on which the first run
would have failed in another sequence of trials.
-/
theorem order_turned (hNodup : predicates.Nodup) (hForest : Forest predicates)
    (flips : Predicate → Bool) (hFor : planner.IsFor predicates)
    (hFor' : planner'.IsFor (predicates.map (Predicate.turned flips)))
    (hFraction : planner'.fraction = planner.fraction)
    (hVisit : ∀ l, (visit l).Perm l) (hVisit' : ∀ l, (visit' l).Perm l) (explained' : Bool)
    (hOrder : (planner.order visit catalog stats selectivities explained).2.outcome = .ok found)
    (hCards : ∀ plans,
      (planner.order visit catalog stats selectivities explained).1.last.plans = some plans →
        ∀ members, Within planner.joins planner.joins.length members →
          (planner.setting catalog stats selectivities).SameCards plans.get? ⟨members⟩)
    (hDefined : ∀ plans,
      (planner.order visit catalog stats selectivities explained).1.last.plans = some plans →
        ∀ members, Within planner.joins planner.joins.length members →
          (planner.setting catalog stats selectivities).DefinedOrientations plans.get?
            ⟨members⟩) :
    ∃ plans, (planner.order visit catalog stats selectivities explained).1.last.plans = some plans ∧
      (planner'.order visit' catalog stats selectivities explained').2.outcome.Ensures
        (fun e => Uncounted (planner.setting catalog stats selectivities) planner.joins plans e ∧
          ¬ planner.Returns catalog stats selectivities explained)
        fun _ => ∃ plans',
          (planner'.order visit' catalog stats selectivities explained').1.last.plans =
            some plans' ∧
          SameEstimates predicates (Predicate.turned flips) plans plans' := by
  have hDistinct := distinctJoins_of_order hFor hNodup hForest hOrder
  have hJoins := hFor.joins_eq hDistinct
  have hCorresponding := corresponding_turned flips
    ((hFor'.joins_eq (hDistinct.map_turned flips)).trans (by rw [hJoins])) hFraction
  obtain ⟨plans, hPlans⟩ := exists_plans_of_order hOrder
  refine ⟨plans, hPlans, (order_repeats hFor hFor' hCorresponding hVisit hVisit' hOrder hPlans
    (fun members hWithin =>
      Setting.DefinedOrientations.comparable (hDefined plans hPlans members hWithin))
    (hCards plans hPlans) fun hChecks => ?_).mono ?_⟩
  · exact follows_turned (hCorresponding.sameReadings catalog stats selectivities)
      (hJoins ▸ hForest) hFor.distinct flips
      (fun p hp hKind => known_sides_of_checks hChecks hp (.refl p) hKind) (hDefined plans hPlans)
  · rintro found' - ⟨plans', hPlans', hRepeats⟩
    exact ⟨plans', hPlans', hJoins ▸ hRepeats.estimates⟩

/-- Two joins in a row and a join with a subplan. -/
def treeJoins : List Predicate :=
  [⟨.subplan, ⟨some "C", some "id"⟩, .equal, ⟨none, none⟩⟩, sampleJoin "A" "id" "B" "id",
    sampleJoin "B" "id" "C" "v"]

theorem forest_treeJoins : Forest treeJoins := by
  refine Forest.cons_subplan (.cons (a := "B") (b := "A") (.cons (a := "B") (b := "C") .nil
    ⟨rfl, Or.inl ⟨rfl, rfl⟩⟩ (by decide) ?_) ⟨rfl, Or.inr ⟨rfl, rfl⟩⟩ (by decide) ?_) rfl
  · intro q hq
    cases hq
  · decide +kernel

/-- The statement at a run in which all joins are exchanged. -/
theorem order_turned_tree :
    ∃ plans plans',
      ((samplePlanner treeJoins).order List.reverse sampleCatalog sampleStats none
        false).1.last.plans = some plans ∧
      ((samplePlanner (treeJoins.map (Predicate.turned fun _ => true))).order id sampleCatalog
        sampleStats none false).1.last.plans = some plans' ∧
      SameEstimates treeJoins (Predicate.turned fun _ => true) plans plans' := by
  obtain ⟨found, hOrder⟩ := exists_eq_ok_of_isSome (x := ((samplePlanner treeJoins).order
    List.reverse sampleCatalog sampleStats none false).2.outcome) (by decide +kernel)
  obtain ⟨found', hOrder'⟩ := exists_eq_ok_of_isSome
    (x := ((samplePlanner (treeJoins.map (Predicate.turned fun _ => true))).order id sampleCatalog
      sampleStats none false).2.outcome) (by decide +kernel)
  have hDecided : (((samplePlanner treeJoins).order List.reverse sampleCatalog sampleStats none
      false).1.last.plans.all fun plans =>
        decide (∀ members, Within (samplePlanner treeJoins).joins
          (samplePlanner treeJoins).joins.length members →
            ((samplePlanner treeJoins).setting sampleCatalog sampleStats none).SameCards plans.get?
              ⟨members⟩) &&
        decide (∀ members, Within (samplePlanner treeJoins).joins
          (samplePlanner treeJoins).joins.length members →
            ((samplePlanner treeJoins).setting sampleCatalog sampleStats
              none).DefinedOrientations plans.get? ⟨members⟩)) = true := by decide +kernel
  have hAll := (Option.all_eq_true _ _).mp hDecided
  simp only [Bool.and_eq_true, decide_eq_true_eq] at hAll
  obtain ⟨plans, hPlans, hSecond⟩ := order_turned (by decide +kernel) forest_treeJoins
    (fun _ => true) (isFor_samplePlanner treeJoins) (isFor_samplePlanner _) rfl
    (fun l => l.reverse_perm) (fun l => List.Perm.refl (id l)) false hOrder
    (fun plans hPlans => (hAll plans hPlans).1) fun plans hPlans => (hAll plans hPlans).2
  obtain ⟨plans', hPlans', hSame⟩ := hSecond.of_eq_ok hOrder'
  exact ⟨plans, plans', hPlans, hPlans', hSame⟩

end JoinPlanner.Planner
