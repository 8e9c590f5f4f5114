import JoinPlanner.Proofs.Planner.LeftDeepPlans
import JoinPlanner.Proofs.Search.Bellman
import JoinPlanner.Proofs.Search.Replay

/-!
# JoinPlanner — what the entries of a run are worth

A run that returns an order leaves a table with one entry for each set of joins. An entry is
no better and no worse than its set allows, given the entries of the smaller sets, and it can
be worked out again from the order of its joins alone.

* `order_bellmanCell`      — every entry is the cheapest one that ends with a join of its set.
* `ReplayedEntry`          — an entry is what its order replays to, and so are its beginnings.
* `order_entries_replayed` — all entries of a run are of this kind.
-/

namespace JoinPlanner.Planner

open Outcome

variable {planner : Planner} {predicates : List Predicate} {visit : Visit} {catalog : Catalog}
  {stats : Snapshot} {selectivities : Option Selectivities} {explained : Bool}
  {found : List Predicate} {plans : PlanTable}

/-- Parallel predicates and a join with a subplan. -/
def parallelJoins : List Predicate :=
  [sampleJoin "C" "id" "A" "id", sampleJoin "A" "v" "C" "v",
    ⟨.subplan, ⟨some "C", some "id"⟩, .equal, ⟨none, none⟩⟩]

/-- Their run returns an order, and all costs are finite. -/
theorem exists_parallel_run :
    ∃ found plans,
      ((samplePlanner parallelJoins).order List.reverse sampleCatalog sampleStats none
        false).2.outcome = .ok found ∧
      ((samplePlanner parallelJoins).order List.reverse sampleCatalog sampleStats none
        false).1.last.plans = some plans ∧
      plans.entries ≠ [] ∧
      FiniteCosts ((samplePlanner parallelJoins).setting sampleCatalog sampleStats none)
        (samplePlanner parallelJoins).joins (samplePlanner parallelJoins).joins.length plans := by
  obtain ⟨found, hOrder⟩ := exists_eq_ok_of_isSome (x := ((samplePlanner parallelJoins).order
    List.reverse sampleCatalog sampleStats none false).2.outcome) (by decide +kernel)
  have hKept : (((samplePlanner parallelJoins).order List.reverse sampleCatalog sampleStats none
      false).1.last.plans.any fun plans => !plans.entries.isEmpty &&
        decide (FiniteCosts ((samplePlanner parallelJoins).setting sampleCatalog sampleStats none)
          (samplePlanner parallelJoins).joins (samplePlanner parallelJoins).joins.length
          plans)) = true := by decide +kernel
  obtain ⟨plans, hPlans, hFinite⟩ := (Option.any_eq_true _ _).mp hKept
  rw [Bool.and_eq_true, Bool.not_eq_true', List.isEmpty_eq_false_iff] at hFinite
  exact ⟨found, plans, hOrder, hPlans, hFinite.1, of_decide_eq_true hFinite.2⟩

-- ---------------------------------------------------------------------------
-- The equation of the cells
-- ---------------------------------------------------------------------------

/--
After a run that returns an order and whose costs are finite, every set of joins satisfies
its equation, in whatever sequence the joins of a set were tried.
-/
theorem order_bellmanCell (hFor : planner.IsFor predicates) (hVisit : ∀ l, (visit l).Perm l)
    (hOrder : (planner.order visit catalog stats selectivities explained).2.outcome = .ok found)
    (hFinite : ∀ plans,
      (planner.order visit catalog stats selectivities explained).1.last.plans = some plans →
        FiniteCosts (planner.setting catalog stats selectivities) planner.joins
          planner.joins.length plans) :
    ∃ plans, (planner.order visit catalog stats selectivities explained).1.last.plans = some plans ∧
      ∀ set : JoinSet, set.members ≠ [] → (∀ p ∈ set.members, p ∈ planner.joins) →
        (planner.setting catalog stats selectivities).BellmanCell plans.get? set := by
  rcases order_cases hOrder with ⟨hJoins, -, hPlans⟩ | ⟨-, plans, plan, hFind, hPlans, -⟩
  · refine ⟨.empty, hPlans, fun set hNe hSubset => ?_⟩
    obtain ⟨p, hp⟩ := List.exists_mem_of_ne_nil set.members hNe
    have hMem := hSubset p hp
    rw [hJoins] at hMem
    cases hMem
  · have hSearched := searched_of_findPlans hFor hVisit hFind
    exact ⟨plans, hPlans, fun set hNe hSubset =>
      hSearched.bellmanCell hVisit (hFinite plans hPlans) hNe hSubset⟩

/-- The statement at the parallel predicates. -/
theorem order_bellmanCell_parallel :
    ∃ plans,
      ((samplePlanner parallelJoins).order List.reverse sampleCatalog sampleStats none
        false).1.last.plans = some plans ∧
      ∀ set : JoinSet, set.members ≠ [] →
        (∀ p ∈ set.members, p ∈ (samplePlanner parallelJoins).joins) →
        ((samplePlanner parallelJoins).setting sampleCatalog sampleStats none).BellmanCell
          plans.get? set := by
  obtain ⟨found, plans, hOrder, hPlans, -, hFinite⟩ := exists_parallel_run
  refine order_bellmanCell (isFor_samplePlanner parallelJoins) (fun l => l.reverse_perm) hOrder
    fun plans' hPlans' => ?_
  obtain rfl := Option.some.inj (hPlans.symm.trans hPlans')
  exact hFinite

-- ---------------------------------------------------------------------------
-- Replayed entries
-- ---------------------------------------------------------------------------

/-- The entry of a set is what its order replays to, and so are the entries of its beginnings. -/
structure ReplayedEntry (planner : Planner) (s : Setting) (plans : PlanTable) (set : JoinSet)
    (plan : Plan) : Prop where
  /-- The order consists of the joins of the set. -/
  perm : (planner.given plan.order).Perm set.members
  /-- From scratch the joins make the same plan, with the same orientations. -/
  replay : s.replay none (planner.given plan.order) = .ok (some plan)
  /-- Every beginning is the order of the entry of its joins. -/
  beginnings : ∀ k, 0 < k → k ≤ set.members.length → ∃ kept,
    plans.get? (JoinSet.ofList (planner.given (plan.order.take k))) = some kept ∧
    kept.order = plan.order.take k ∧
    s.replay none (planner.given (plan.order.take k)) = .ok (some kept)
  /-- Whether a key takes part in a beginning does not depend on the orientations. -/
  keys : ∀ k, s.hasKey (plan.order.take k) = s.hasKey (planner.given (plan.order.take k))

/-- An entry that has grown in the table is the replay of its order. -/
theorem replayedEntry_of_grown {s : Setting} {order : List Predicate} {plan : Plan}
    {set : JoinSet} (hFor : planner.IsFor predicates) (hGrown : Grown s plans order plan)
    (hPerm : order.Perm set.members) (hJoins : ∀ p ∈ order, p ∈ planner.joins)
    (hSides : ∀ p ∈ planner.joins, p.isSubplan = false →
      (∃ key, s.isKey p.left = .ok key) ∧ ∃ key, s.isKey p.right = .ok key) :
    planner.ReplayedEntry s plans set plan := by
  have hSame := Setting.sameJoins_of_replay hGrown.replay
  have hSubset : ∀ k, ∀ p ∈ order.take k, p ∈ planner.joins :=
    fun k p hp => hJoins p (List.mem_of_mem_take hp)
  have hGiven : ∀ k, planner.given (plan.order.take k) = order.take k :=
    fun k => hFor.given_eq (List.forall₂_take k hSame) (hSubset k)
  have hWhole : planner.given plan.order = order := hFor.given_eq hSame hJoins
  refine ⟨?_, ?_, fun k hk hLe => ?_, fun k => ?_⟩
  · rw [hWhole]
    exact hPerm
  · rw [hWhole]
    exact hGrown.replay
  · obtain ⟨kept, hKept, hTake⟩ := hGrown.exists_take hk (hPerm.length_eq ▸ hLe)
    rw [hGiven]
    exact ⟨kept, hKept.kept, hTake, hKept.replay⟩
  · rw [hGiven]
    exact Setting.hasKey_eq_of_sameJoins (List.forall₂_take k hSame)
      fun p hp => hSides p (hSubset k p hp)

/--
After a run that returns an order, the beginnings of every kept plan are kept plans, and
replaying its joins one by one gives its cost, its cardinality and its orientations.
-/
theorem order_entries_replayed (hFor : planner.IsFor predicates) (hVisit : ∀ l, (visit l).Perm l)
    (hOrder : (planner.order visit catalog stats selectivities explained).2.outcome = .ok found) :
    ∃ plans, (planner.order visit catalog stats selectivities explained).1.last.plans = some plans ∧
      ∀ e ∈ plans.entries, planner.ReplayedEntry (planner.setting catalog stats selectivities)
        plans e.1 e.2 := by
  rcases order_cases hOrder with ⟨-, -, hPlans⟩ | ⟨-, plans, plan, hFind, hPlans, -⟩
  · refine ⟨.empty, hPlans, fun e he => ?_⟩
    cases he
  · have hSearched := searched_of_findPlans hFor hVisit hFind
    obtain ⟨hChecks, -⟩ := findPlans_eq_ok_iff.mp hFind
    refine ⟨plans, hPlans, fun e he => ?_⟩
    have hWithin := hSearched.sets e he
    obtain ⟨order, hPerm, hGrown⟩ :=
      hSearched.exists_grown hFor.distinct.nodup hVisit hWithin (hSearched.entry e he)
    exact replayedEntry_of_grown hFor hGrown hPerm
      (fun p hp => hWithin.sublist.subset (hPerm.mem_iff.mp hp))
      fun p hp hKind => exists_isKey_of_checks hChecks hp hKind

/-- The statement at the parallel predicates. -/
theorem order_entries_replayed_parallel :
    ∃ plans,
      ((samplePlanner parallelJoins).order List.reverse sampleCatalog sampleStats none
        false).1.last.plans = some plans ∧ plans.entries ≠ [] ∧
      ∀ e ∈ plans.entries, (samplePlanner parallelJoins).ReplayedEntry
        ((samplePlanner parallelJoins).setting sampleCatalog sampleStats none) plans e.1 e.2 := by
  obtain ⟨found, plans, hOrder, hPlans, hNe, -⟩ := exists_parallel_run
  obtain ⟨plans', hPlans', hEntries⟩ :=
    order_entries_replayed (isFor_samplePlanner parallelJoins) (fun l => l.reverse_perm) hOrder
  obtain rfl := Option.some.inj (hPlans.symm.trans hPlans')
  exact ⟨plans, hPlans, hNe, hEntries⟩

end JoinPlanner.Planner
