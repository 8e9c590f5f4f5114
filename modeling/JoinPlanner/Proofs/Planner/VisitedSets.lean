import JoinPlanner.Proofs.Planner.LeftDeepPlans
import JoinPlanner.Proofs.Search.SetBySet

/-!
# JoinPlanner — the sets of joins that a run visits

A run asks for the subsets of its joins of size one, two, and so on. No set is left out or
visited twice, and when it is a set's turn, the plans of all its subsets are in the table.

* `outcome_findPlans_setBySet` — a run goes through the sets one by one.
* `findPlans_visits` — the subsets of any list, and those that a run visits.
-/

namespace JoinPlanner.Planner

/-- If the checks pass, the sets of joins are gone through one by one, smaller ones first. -/
theorem outcome_findPlans_setBySet {planner : Planner} {predicates : List Predicate}
    {visit : Visit} (hFor : planner.IsFor predicates) (hVisit : ∀ l, (visit l).Perm l)
    (catalog : Catalog) (stats : Snapshot) (selectivities : Option Selectivities) :
    (planner.findPlans visit catalog stats selectivities).outcome =
      planner.checkInputs catalog stats selectivities >>= fun _ =>
        (subsetsBySize planner.joins).foldlM
          ((planner.setting catalog stats selectivities).addSet visit) .empty := by
  rw [outcome_findPlans]
  exact bind_congr fun _ => search_eq_foldlM_addSet hFor.distinct.nodup hVisit planner.verbose

/--
The subsets of one size of a list without repetitions are listed completely, each once and in
the order of their positions. The search of a run takes those of its joins, one size after
another, and visits every set that is not empty once and after all of its subsets.
-/
theorem findPlans_visits :
    (∀ (α : Type) [DecidableEq α] (items : List α) (size : Nat), items.Nodup →
      ∃ subsets, sizedSubsets items size = .ok subsets ∧ ListsSubsets items size subsets) ∧
    ∀ (planner : Planner) (predicates : List Predicate) (visit : Visit) (catalog : Catalog)
      (stats : Snapshot) (selectivities : Option Selectivities),
      planner.IsFor predicates → (∀ l, (visit l).Perm l) →
      ∃ levels, ((List.range' 1 planner.joins.length).mapM fun size : Nat =>
          sizedSubsets planner.joins size) = .ok levels ∧
        VisitsSubsets planner.joins levels.flatten ∧
        (planner.findPlans visit catalog stats selectivities).outcome =
          planner.checkInputs catalog stats selectivities >>= fun _ =>
            levels.flatten.foldlM
              ((planner.setting catalog stats selectivities).addSet visit) .empty := by
  refine ⟨fun α _ items size hNodup => exists_listsSubsets hNodup size, ?_⟩
  intro planner predicates visit catalog stats selectivities hFor hVisit
  exact ⟨_, mapM_sizedSubsets _ _, visitsSubsets hFor.distinct.nodup,
    outcome_findPlans_setBySet hFor hVisit catalog stats selectivities⟩

/-- The statement at pairs of three texts and at the joins of the sample. -/
theorem findPlans_visits_sample :
    (∃ subsets, sizedSubsets ["a", "b", "c"] 2 = .ok subsets ∧
      ListsSubsets ["a", "b", "c"] 2 subsets) ∧
    ∃ levels, ((List.range' 1 (samplePlanner sampleJoins).joins.length).mapM fun size : Nat =>
        sizedSubsets (samplePlanner sampleJoins).joins size) = .ok levels ∧
      VisitsSubsets (samplePlanner sampleJoins).joins levels.flatten ∧
      ((samplePlanner sampleJoins).findPlans List.reverse sampleCatalog sampleStats none).outcome =
        (samplePlanner sampleJoins).checkInputs sampleCatalog sampleStats none >>= fun _ =>
          levels.flatten.foldlM (((samplePlanner sampleJoins).setting sampleCatalog sampleStats
            none).addSet List.reverse) .empty :=
  ⟨findPlans_visits.1 String ["a", "b", "c"] 2 (by decide),
    findPlans_visits.2 (samplePlanner sampleJoins) sampleJoins List.reverse sampleCatalog
      sampleStats none (isFor_samplePlanner sampleJoins) fun l => l.reverse_perm⟩

end JoinPlanner.Planner
