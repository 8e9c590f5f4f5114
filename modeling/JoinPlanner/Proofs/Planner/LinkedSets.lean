import JoinPlanner.Proofs.Planner.Explained
import JoinPlanner.Proofs.Planner.LeftDeepPlans

/-!
# JoinPlanner — a run plans exactly the linked sets

If the checks pass and all costs are finite, the sets of joins with a plan are those whose
tables are linked. All joins of the planner are linked then, so they have a plan, and the
search never ends without one.

* `ensures_explain`    — explaining an order never complains about groups of tables.
* `order_plans_linked` — the statement.
-/

namespace JoinPlanner

open Outcome

/-- The error is not about tables that cannot be joined. -/
def PlannerError.NotInfeasible : PlannerError → Prop
  | .noFeasiblePlan _ => False
  | _ => True

theorem PlannerError.IsNumberError.notInfeasible {e : PlannerError} (h : e.IsNumberError) :
    e.NotInfeasible := by
  cases e <;> first | exact h.elim | trivial

namespace Planner

open PlannerError

variable {planner : Planner} {predicates : List Predicate} {visit : Visit} {catalog : Catalog}
  {stats : Snapshot} {selectivities : Option Selectivities} {explained : Bool}

-- ---------------------------------------------------------------------------
-- Explanations
-- ---------------------------------------------------------------------------

theorem ensures_explain (planner : Planner) :
    planner.explain.Ensures NotInfeasible fun _ => True := by
  rw [explain]
  split
  · refine ensures_bind (P := fun _ => True) (ensures_mapM fun size _ => ?_) fun estimates _ _ => ?_
    · refine ensures_bind (P := fun _ => True) (ensures_mapM fun p _ => ?_) fun joins _ _ => ?_
      · rw [representative]
        split
        · exact .ok trivial
        · exact .error trivial
      · split
        · exact .ok trivial
        · exact .error trivial
    · exact Explanation.ensures_ofOrder (Or.inr trivial) fun _ _ _ _ => Or.inr trivial
  · exact .error trivial

theorem ne_infeasible_of_ensures {α : Type} {x : Outcome α}
    (h : x.Ensures NotInfeasible fun _ => True) (groups : List (List String)) :
    x ≠ .error (.noFeasiblePlan groups) := by
  intro hError
  exact h.of_eq_error hError

/-- An order fails like its run or like its explanation. -/
theorem ensures_order
    (h : (planner.run visit catalog stats selectivities).2.outcome.Ensures NotInfeasible
      fun _ => True) :
    (planner.order visit catalog stats selectivities explained).2.outcome.Ensures NotInfeasible
      fun _ => True := by
  rw [outcome_order]
  refine ensures_bind h fun found _ _ => ?_
  split
  · exact ensures_bind (ensures_explain _) fun _ _ _ => .ok trivial
  · exact .ok trivial

-- ---------------------------------------------------------------------------
-- Linked sets
-- ---------------------------------------------------------------------------

theorem ensures_scansOf (hChecks : planner.checkInputs catalog stats selectivities = .ok ()) :
    (scansOf (planner.setting catalog stats selectivities) planner.joins).Ensures IsNumberError
      fun _ => True := by
  refine ensures_mapM fun table hTable => ?_
  have hKnown := known_of_isKnown hTable ((exists_of_checks hChecks).1 table hTable)
  exact ensures_bind (Setting.ensures_scanOf hKnown) fun _ _ _ => .ok trivial

/-- The check for cross products counts the groups of linked tables. -/
theorem checkLinked_eq_success_iff_groups {members : List Predicate} (hNe : members ≠ []) :
    checkLinked members = .ok .success ↔
      ∃ groups, linkedGroups members = .ok groups ∧ groups.length = 1 := by
  rw [checkLinked, if_neg (by simpa using hNe), bind_eq_ok]
  refine exists_congr fun groups => and_congr_right fun _ => ?_
  by_cases hOne : groups.length = 1
  · rw [if_pos hOne]
    exact iff_of_true rfl hOne
  · rw [if_neg hOne]
    refine iff_of_false (fun h => ?_) hOne
    cases pure_eq_ok.mp h

/-- The plan of any collection of joins is that of the set that a search lists. -/
theorem exists_plan_iff_checkLinked {s : Setting} {joins : List Predicate} {plans : PlanTable}
    (h : Searched s visit joins joins.length plans) (hNodup : joins.Nodup)
    (hVisit : ∀ l, (visit l).Perm l) (hFinite : FiniteCosts s joins joins.length plans)
    (hNamed : ∀ p ∈ joins, p.Named) (members : List Predicate) (hNe : members ≠ [])
    (hSubset : ∀ p ∈ members, p ∈ joins) :
    (plans.get? (JoinSet.ofList members)).isSome ↔ checkLinked members = .ok .success := by
  obtain ⟨listed, hWithin, hSame⟩ := exists_within hNe hSubset
  have hLinked : Linked members ↔ Linked listed :=
    linked_congr (fun p hp => ⟨p, (hSame p).mp hp, Predicate.SameJoin.refl p⟩)
      fun p hp => ⟨p, (hSame p).mpr hp, Predicate.SameJoin.refl p⟩
  rw [plans.get?_ofList hSame, Option.isSome_iff_exists, h.exists_plan_iff_linked hNodup hVisit hFinite hNamed hWithin,
    checkLinked_eq_success_iff fun p hp => JoinGraph.hasNodes_of_named (hNamed p (hSubset p hp)),
    hLinked]

/--
After a run whose checks have passed and whose costs are finite, a set of joins has a plan
exactly if its tables are linked. All joins have one, so the error about tables that cannot
be joined is not raised any more. Nothing is kept if a number leaves the range of doubles.
-/
theorem order_plans_linked (hFor : planner.IsFor predicates) (hNamed : ∀ p ∈ predicates, p.Named)
    (hVisit : ∀ l, (visit l).Perm l)
    (hChecks : planner.checkInputs catalog stats selectivities = .ok ())
    (hFinite : ∀ plans,
      (planner.order visit catalog stats selectivities explained).1.last.plans = some plans →
        FiniteCosts (planner.setting catalog stats selectivities) planner.joins
          planner.joins.length plans) :
    (∃ e, (planner.order visit catalog stats selectivities explained).1.last.plans = none ∧
      (planner.order visit catalog stats selectivities explained).2.outcome = .error (.number e)) ∨
    ∃ plans, (planner.order visit catalog stats selectivities explained).1.last.plans = some plans ∧
      (∀ members, members ≠ [] → (∀ p ∈ members, p ∈ planner.joins) →
        ((plans.get? (JoinSet.ofList members)).isSome ↔ checkLinked members = .ok .success) ∧
        ((plans.get? (JoinSet.ofList members)).isSome ↔
          ∃ groups, linkedGroups members = .ok groups ∧ groups.length = 1)) ∧
      (planner.joins ≠ [] → (plans.get? (JoinSet.ofList planner.joins)).isSome) ∧
      ∀ groups, (planner.order visit catalog stats selectivities explained).2.outcome ≠
        .error (.noFeasiblePlan groups) := by
  rw [order_last_plans] at hFinite ⊢
  by_cases hJoins : planner.joins = []
  · obtain ⟨hPlans, hOutcome⟩ := run_of_nil hJoins visit catalog stats selectivities
    refine Or.inr ⟨.empty, hPlans, fun members hNe hSubset => ?_, fun h => absurd hJoins h, ?_⟩
    · obtain ⟨p, hp⟩ := List.exists_mem_of_ne_nil members hNe
      have hMem := hSubset p hp
      rw [hJoins] at hMem
      cases hMem
    · refine ne_infeasible_of_ensures (ensures_order ?_)
      rw [hOutcome]
      exact .ok trivial
  · have hFound := ensures_findPlans hFor hNamed hVisit hChecks
    cases hFind : (planner.findPlans visit catalog stats selectivities).outcome with
    | error e =>
      obtain ⟨hPlans, hOutcome⟩ := run_of_error hJoins hFind
      have hNumber := hFound.of_eq_error hFind
      cases e with
      | number cause => exact Or.inl ⟨cause, hPlans, order_of_error hOutcome⟩
      | _ => exact hNumber.elim
    | ok plans =>
      have hSearched := hFound.of_eq_ok hFind
      obtain ⟨hPlans, hOutcome⟩ := run_of_ok hJoins hFind
      have hIff := exists_plan_iff_checkLinked hSearched hFor.distinct.nodup hVisit
        (hFinite plans hPlans) (hFor.forall_joins hNamed)
      have hAll := (hIff planner.joins hJoins fun p hp => hp).mpr (exists_of_checks hChecks).2
      refine Or.inr ⟨plans, hPlans, fun members hNe hSubset => ?_, fun _ => hAll, ?_⟩
      · have hSet := hIff members hNe hSubset
        exact ⟨hSet, hSet.trans (checkLinked_eq_success_iff_groups hNe)⟩
      obtain ⟨plan, hPlan⟩ := Option.isSome_iff_exists.mp hAll
      refine ne_infeasible_of_ensures (ensures_order ?_)
      rw [hOutcome, hPlan]
      refine ensures_bind ((ensures_scansOf hChecks).weaken fun e he => ?_) fun _ _ _ => .ok trivial
      exact he.notInfeasible

/-- The statement at the joins of the sample. -/
theorem order_plans_linked_sample :
    ∃ plans,
      ((samplePlanner sampleJoins).order List.reverse sampleCatalog sampleStats none
        false).1.last.plans = some plans ∧
      (∀ members, members ≠ [] → (∀ p ∈ members, p ∈ (samplePlanner sampleJoins).joins) →
        ((plans.get? (JoinSet.ofList members)).isSome ↔ checkLinked members = .ok .success)) ∧
      (plans.get? (JoinSet.ofList (samplePlanner sampleJoins).joins)).isSome := by
  obtain ⟨_, hChecks⟩ := exists_eq_ok_of_isSome
    (x := (samplePlanner sampleJoins).checkInputs sampleCatalog sampleStats none)
    (by decide +kernel)
  have hFinite : (((samplePlanner sampleJoins).order List.reverse sampleCatalog sampleStats none
      false).1.last.plans.all fun plans => decide (FiniteCosts ((samplePlanner sampleJoins).setting
        sampleCatalog sampleStats none) (samplePlanner sampleJoins).joins
          (samplePlanner sampleJoins).joins.length plans)) = true := by decide +kernel
  have hKept : ((samplePlanner sampleJoins).order List.reverse sampleCatalog sampleStats none
      false).1.last.plans ≠ none := by
    rw [← Option.isSome_iff_ne_none]
    decide +kernel
  have hJoins : (samplePlanner sampleJoins).joins ≠ [] := by decide +kernel
  rcases order_plans_linked (isFor_samplePlanner sampleJoins) (by decide +kernel)
    (fun l => l.reverse_perm) hChecks
    (fun plans hPlans => of_decide_eq_true ((Option.all_eq_true _ _).mp hFinite plans hPlans)) with
    ⟨e, hNone, -⟩ | ⟨plans, hPlans, hIff, hAll, -⟩
  · exact absurd hNone hKept
  · exact ⟨plans, hPlans, fun members hNe hSubset => (hIff members hNe hSubset).1, hAll hJoins⟩

end Planner

end JoinPlanner
