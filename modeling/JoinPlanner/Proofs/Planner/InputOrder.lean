import JoinPlanner.Proofs.Planner.CheapestOrder
import JoinPlanner.Proofs.Planner.SecondRun

/-!
# JoinPlanner — the sequence of the predicates

In which sequence the predicates of a query are given does not matter, nor does the sequence
in which the joins of a set are tried. If ties of cheapest joins are equally large, every set
has plans of the same cost and cardinality in both runs; without ties all plans are the same.

* `order_perm`          — the statement.
* `order_perm_chain`    — a chain of joins from either end.
-/

namespace JoinPlanner.Planner

open Outcome

variable {planner planner' : Planner} {predicates predicates' : List Predicate}
  {visit visit' : Visit} {catalog : Catalog} {stats : Snapshot}
  {selectivities : Option Selectivities} {explained : Bool}
  {found : List Predicate} {plans plans' : PlanTable}

-- ---------------------------------------------------------------------------
-- Sets of the same joins
-- ---------------------------------------------------------------------------

theorem renamed_id : Plan.renamed id = id := by
  funext plan
  rw [Plan.renamed, List.map_id]
  rfl

/-- Sets with other predicates have no plan in either table. -/
theorem forall_sets_of_joins {R : Option Plan → Option Plan → Prop} (hNone : R none none)
    {s s' : Setting} {joins joins' : List Predicate} {size size' : Nat}
    (hSearched : Searched s visit joins size plans)
    (hSearched' : Searched s' visit' joins' size' plans') (hPerm : joins'.Perm joins)
    (h : ∀ members, (∀ p ∈ members, p ∈ joins) →
      R (plans.get? (.ofList members)) (plans'.get? (.ofList members))) (set : JoinSet) :
    R (plans.get? set) (plans'.get? set) := by
  by_cases hMembers : ∀ p ∈ set.members, p ∈ joins
  · have hSet := h set.members hMembers
    rwa [plans.get?_ofList fun p => Iff.rfl, plans'.get?_ofList fun p => Iff.rfl] at hSet
  · push Not at hMembers
    obtain ⟨p, hp, hOutside⟩ := hMembers
    rw [get?_eq_none_of_searched hSearched (Or.inr ⟨p, hp, hOutside⟩),
      get?_eq_none_of_searched hSearched' (Or.inr ⟨p, hp, mt hPerm.mem_iff.mp hOutside⟩)]
    exact hNone

-- ---------------------------------------------------------------------------
-- Runs
-- ---------------------------------------------------------------------------

/-- Finite costs can be compared. -/
theorem comparable_of_finiteCosts {s : Setting} {joins : List Predicate} {size : Nat}
    (h : FiniteCosts s joins size plans) {members : List Predicate}
    (hWithin : Within joins size members) : s.Comparable plans.get? ⟨members⟩ :=
  Setting.DefinedTrials.comparable fun p hp previous o hLast =>
    (h members hWithin p hp previous o hLast).defined

/--
If a run returns an order, all costs are finite, and the cheapest joins of each set are
equally large, a run for the predicates in another sequence finds plans of the same cost and
cardinality for the same sets; if no set has two cheapest joins, these are the same plans. It
fails only where the tuples of a join are uncounted on which the first run would have failed in
another sequence of trials.
-/
theorem order_perm (hDistinct : DistinctJoins predicates) (hPerm : predicates'.Perm predicates)
    (hFor : planner.IsFor predicates) (hFor' : planner'.IsFor predicates')
    (hFraction : planner'.fraction = planner.fraction)
    (hVisit : ∀ l, (visit l).Perm l) (hVisit' : ∀ l, (visit' l).Perm l)
    (explained' : Bool)
    (hOrder : (planner.order visit catalog stats selectivities explained).2.outcome = .ok found)
    (hFinite : ∀ plans,
      (planner.order visit catalog stats selectivities explained).1.last.plans = some plans →
        FiniteCosts (planner.setting catalog stats selectivities) planner.joins
          planner.joins.length plans)
    (hCards : ∀ plans,
      (planner.order visit catalog stats selectivities explained).1.last.plans = some plans →
        ∀ members, Within planner.joins planner.joins.length members →
          (planner.setting catalog stats selectivities).SameCards plans.get? ⟨members⟩) :
    ∃ plans, (planner.order visit catalog stats selectivities explained).1.last.plans = some plans ∧
      (planner'.order visit' catalog stats selectivities explained').2.outcome.Ensures
        (fun e => Uncounted (planner.setting catalog stats selectivities) planner.joins plans e ∧
          ¬ planner.Returns catalog stats selectivities explained)
        fun found' => ∃ plans',
          (planner'.order visit' catalog stats selectivities explained').1.last.plans =
            some plans' ∧
          (∀ set : JoinSet, (plans'.get? set).map Plan.estimate =
            (plans.get? set).map Plan.estimate) ∧
          ((∀ members, Within planner.joins planner.joins.length members →
              (planner.setting catalog stats selectivities).Untied plans.get? ⟨members⟩) →
            found' = found ∧ ∀ set : JoinSet, plans'.get? set = plans.get? set) := by
  have hSameJoins : planner'.joins.Perm planner.joins := by
    rwa [hFor.joins_eq hDistinct, hFor'.joins_eq (hDistinct.perm hPerm.symm)]
  have hCorresponding := corresponding_of_perm hSameJoins hFraction
  obtain ⟨plans, hPlans⟩ := exists_plans_of_order hOrder
  refine ⟨plans, hPlans, (order_repeats hFor hFor' hCorresponding hVisit hVisit' hOrder hPlans
    (fun members hWithin => comparable_of_finiteCosts (hFinite plans hPlans) hWithin)
    (hCards plans hPlans) fun hChecks => follows_of_perm hCorresponding plans hChecks).mono ?_⟩
  rintro found' hOrder' ⟨plans', hPlans', hRepeats⟩
  have hSearched := searched_of_order hFor hVisit hOrder hPlans
  have hSearched' := searched_of_order hFor' hVisit' hOrder' hPlans'
  refine ⟨plans', hPlans', fun set => ?_, fun hUntied => ?_⟩
  · refine forall_sets_of_joins (R := fun best best' => best'.map Plan.estimate =
      best.map Plan.estimate) rfl hSearched hSearched' hSameJoins (fun members hMembers => ?_) set
    have hSet := hRepeats.estimates members hMembers
    rwa [List.map_id] at hSet
  · obtain ⟨hSame, hFound⟩ :=
      hRepeats.untied (fun p => Predicate.SameCondition.refl p) hUntied
    refine ⟨hFound.trans (List.map_id found), fun set => ?_⟩
    refine forall_sets_of_joins (R := fun best best' => best' = best) rfl hSearched hSearched'
      hSameJoins (fun members hMembers => ?_) set
    have hSet := hSame members hMembers
    rwa [List.map_id, renamed_id, Option.map_id, id] at hSet

/-- A chain of joins, given from either end and tried in either direction. -/
theorem order_perm_chain :
    ∃ found plans plans',
      ((samplePlanner chainJoins).order List.reverse sampleCatalog sampleStats none
        false).2.outcome = .ok found ∧
      ((samplePlanner chainJoins.reverse).order id sampleCatalog sampleStats none
        true).2.outcome = .ok found ∧
      ((samplePlanner chainJoins).order List.reverse sampleCatalog sampleStats none
        false).1.last.plans = some plans ∧
      ((samplePlanner chainJoins.reverse).order id sampleCatalog sampleStats none
        true).1.last.plans = some plans' ∧
      ∀ set : JoinSet, plans'.get? set = plans.get? set := by
  obtain ⟨found, hOrder⟩ := exists_eq_ok_of_isSome (x := ((samplePlanner chainJoins).order
    List.reverse sampleCatalog sampleStats none false).2.outcome) (by decide +kernel)
  obtain ⟨found', hOrder'⟩ := exists_eq_ok_of_isSome
    (x := ((samplePlanner chainJoins.reverse).order id sampleCatalog sampleStats none
      true).2.outcome) (by decide +kernel)
  have hDecided : (((samplePlanner chainJoins).order List.reverse sampleCatalog sampleStats none
      false).1.last.plans.all fun plans =>
        decide (FiniteCosts ((samplePlanner chainJoins).setting sampleCatalog sampleStats none)
          (samplePlanner chainJoins).joins (samplePlanner chainJoins).joins.length plans) &&
        decide (∀ members, Within (samplePlanner chainJoins).joins
          (samplePlanner chainJoins).joins.length members →
            ((samplePlanner chainJoins).setting sampleCatalog sampleStats none).Untied plans.get?
              ⟨members⟩)) = true := by decide +kernel
  have hAll := (Option.all_eq_true _ _).mp hDecided
  simp only [Bool.and_eq_true, decide_eq_true_eq] at hAll
  obtain ⟨plans, hPlans, hSecond⟩ := order_perm (by decide +kernel)
    (List.reverse_perm chainJoins) (isFor_samplePlanner chainJoins)
    (isFor_samplePlanner chainJoins.reverse) rfl (fun l => l.reverse_perm)
    (fun l => List.Perm.refl (id l)) true hOrder (fun plans hPlans => (hAll plans hPlans).1)
    fun plans hPlans members hWithin => ((hAll plans hPlans).2 members hWithin).sameCards
  obtain ⟨plans', hPlans', -, hSame⟩ := hSecond.of_eq_ok hOrder'
  obtain ⟨rfl, hSets⟩ := hSame (hAll plans hPlans).2
  exact ⟨found', plans, plans', hOrder, hOrder', hPlans, hPlans', hSets⟩

end JoinPlanner.Planner
