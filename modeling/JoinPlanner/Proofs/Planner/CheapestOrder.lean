import JoinPlanner.Proofs.Planner.LeftDeepPlans
import JoinPlanner.Proofs.Search.Optimality
import JoinPlanner.Proofs.WholePages

/-!
# JoinPlanner — how cheap the returned order is

A run keeps one plan for each set of joins, whatever its cardinality. So the returned order
of table joins need not be the cheapest one. It costs no more than another left-deep order,
unless a beginning of that order is overtaken by the kept plan of its set: the kept plan
costs no more, but it produces another number of tuples.

* `ensures_le_or_overtaken`      — an order of some joins beside the kept plan of these joins.
* `order_not_cheapest`           — a query whose returned order is not the cheapest one.
* `order_le_replay_or_overtaken` — what holds of all orders instead.
* `prefix_le_replay`             — no beginning of an order is cheaper than the kept plan, if
  no beginning produces fewer tuples.
-/

namespace JoinPlanner

open Outcome Setting

namespace Planner

variable {planner : Planner} {predicates : List Predicate} {visit : Visit} {catalog : Catalog}
  {stats : Snapshot} {selectivities : Option Selectivities} {explained : Bool}
  {found other : List Predicate} {plans : PlanTable}

-- ---------------------------------------------------------------------------
-- Orders of some joins
-- ---------------------------------------------------------------------------

/-- What an order of some joins replays to, beside the kept plan of these joins. -/
theorem ensures_le_or_overtaken (hFor : planner.IsFor predicates)
    (hTable : ∀ p ∈ predicates, p.kind = .table) (hVisit : ∀ l, (visit l).Perm l)
    (hPages : WholePages stats) (hSelectivities : NaturalSelectivities selectivities)
    (hFind : (planner.findPlans visit catalog stats selectivities).outcome = .ok plans)
    (hNodup : other.Nodup) (hSubset : ∀ p ∈ other, p ∈ planner.joins) (hDeep : LeftDeep other)
    (hNe : other ≠ []) :
    ∃ kept, plans.get? (JoinSet.ofList other) = some kept ∧
      ((planner.setting catalog stats selectivities).replay none other).Ensures
        PlannerError.IsNumberError fun result => ∃ replayed, result = some replayed ∧
          (kept.cost.le replayed.cost = true ∨
            (planner.setting catalog stats selectivities).Overtaken plans other) := by
  have hSearched := searched_of_findPlans hFor hVisit hFind
  have hScans : (planner.setting catalog stats selectivities).WholeScans :=
    wholeScans_of_stats hPages hSelectivities
  have hTables := hFor.forall_joins hTable
  have hKind : ∀ p ∈ planner.joins, p.isSubplan = false := by
    intro p hp
    rw [Predicate.isSubplan, hTables p hp]
    rfl
  have hJoins : planner.joins.Nodup := hFor.distinct.nodup
  obtain ⟨members, hWithin, hPerm⟩ := exists_within_perm hJoins hNodup hNe hSubset
  -- integer costs are finite, so the order shows that its joins have a plan
  have hFinite := hSearched.finiteCosts_of_whole hJoins hVisit hScans hKind
  obtain ⟨kept, hKept⟩ :=
    hSearched.exists_plan_of_leftDeep hJoins hVisit hFinite hDeep hPerm hWithin
  obtain ⟨hChecks, -⟩ := findPlans_eq_ok_iff.mp hFind
  have hKnown := knownJoin_of_checks hChecks (named_of_checks hChecks hTables)
  refine ⟨kept, (plans.get?_ofList fun p => hPerm.mem_iff).trans hKept, ?_⟩
  refine (ensures_replay (fun p hp => hKnown p (hSubset p hp)) hDeep hNe).mono ?_
  rintro result hReplay ⟨replayed, rfl⟩
  exact ⟨replayed, rfl,
    hSearched.le_or_overtaken hJoins hVisit hScans hKind hWithin hPerm hDeep hKept hReplay⟩

-- ---------------------------------------------------------------------------
-- The returned order
-- ---------------------------------------------------------------------------

/-- A chain of joins through the tables of the sample. -/
def chainJoins : List Predicate :=
  [sampleJoin "A" "id" "B" "id", sampleJoin "B" "id" "C" "v", sampleJoin "C" "v" "D" "id"]

/-- The same chain, from the middle to its ends. -/
def chainFromMiddle : List Predicate :=
  [sampleJoin "B" "id" "C" "v", sampleJoin "A" "id" "B" "id", sampleJoin "C" "v" "D" "id"]

theorem naturalPages_sampleStats : NaturalPages sampleStats := by
  obtain ⟨stats, hStats⟩ :=
    exists_eq_ok_of_isSome (x := (takeAll sampleCatalog {} false 0).outcome) (by decide +kernel)
  have hSample : sampleStats = stats := by
    rw [sampleStats, hStats]
    rfl
  rw [hSample]
  exact naturalPages_of_takeAll (n := 1000) (by decide +kernel) rfl hStats

/-- What the run returns for the chain. -/
theorem exists_chain_order :
    ∃ found plans plan,
      ((samplePlanner chainJoins).order List.reverse sampleCatalog sampleStats none
        false).2.outcome = .ok found ∧
      ((samplePlanner chainJoins).order List.reverse sampleCatalog sampleStats none
        false).1.last.plans = some plans ∧
      plans.get? (JoinSet.ofList (samplePlanner chainJoins).joins) = some plan ∧
      found = plan.order ∧ plan.cost = .whole 5009 := by
  obtain ⟨found, hOrder⟩ := exists_eq_ok_of_isSome (x := ((samplePlanner chainJoins).order
    List.reverse sampleCatalog sampleStats none false).2.outcome) (by decide +kernel)
  have hJoins : (samplePlanner chainJoins).joins ≠ [] := by decide +kernel
  rcases order_cases hOrder with ⟨hNil, -⟩ | ⟨-, plans, plan, -, hPlans, hPlan, hFound⟩
  · exact absurd hNil hJoins
  have hCost : (((samplePlanner chainJoins).order List.reverse sampleCatalog sampleStats none
      false).1.last.plans.bind fun plans =>
        plans.get? (JoinSet.ofList (samplePlanner chainJoins).joins)).map (·.cost) =
      some (.whole 5009) := by decide +kernel
  rw [hPlans, Option.bind_some, hPlan, Option.map_some, Option.some.injEq] at hCost
  exact ⟨found, plans, plan, hOrder, hPlans, hPlan, hFound, hCost⟩

/-- What the chain costs from the middle. -/
theorem exists_chainFromMiddle_replay :
    ∃ replayed, ((samplePlanner chainJoins).setting sampleCatalog sampleStats none).replay none
      chainFromMiddle = .ok (some replayed) ∧ replayed.cost = .whole 4007 := by
  have hReplay : (((samplePlanner chainJoins).setting sampleCatalog sampleStats none).replay none
      chainFromMiddle).toOption.map (fun result => result.map (·.cost)) =
      some (some (.whole 4007)) := by decide +kernel
  obtain ⟨result, hResult, hSome⟩ := Option.map_eq_some_iff.mp hReplay
  obtain ⟨replayed, rfl, hReplayed⟩ := Option.map_eq_some_iff.mp hSome
  exact ⟨replayed, eq_ok_of_toOption hResult, hReplayed⟩

/--
The returned order of the chain is not its cheapest left-deep order: executing the middle
join first costs more for two joins, but leaves fewer tuples to the third one.
-/
theorem order_not_cheapest :
    ∃ found plans plan replayed,
      ((samplePlanner chainJoins).order List.reverse sampleCatalog sampleStats none
        false).2.outcome = .ok found ∧
      ((samplePlanner chainJoins).order List.reverse sampleCatalog sampleStats none
        false).1.last.plans = some plans ∧
      plans.get? (JoinSet.ofList (samplePlanner chainJoins).joins) = some plan ∧
      found = plan.order ∧
      (∀ p ∈ chainJoins, p.kind = .table) ∧ NaturalPages sampleStats ∧
      chainFromMiddle.Perm (samplePlanner chainJoins).joins ∧ LeftDeep chainFromMiddle ∧
      ((samplePlanner chainJoins).setting sampleCatalog sampleStats none).replay none
        chainFromMiddle = .ok (some replayed) ∧
      plan.cost = .whole 5009 ∧ replayed.cost = .whole 4007 ∧
      plan.cost.le replayed.cost = false := by
  obtain ⟨found, plans, plan, hOrder, hPlans, hPlan, hFound, hCost⟩ := exists_chain_order
  obtain ⟨replayed, hReplay, hReplayed⟩ := exists_chainFromMiddle_replay
  exact ⟨found, plans, plan, replayed, hOrder, hPlans, hPlan, hFound, by decide +kernel,
    naturalPages_sampleStats, by decide +kernel, by decide +kernel, hReplay, hCost, hReplayed,
    by rw [hCost, hReplayed]; decide⟩

/--
The returned order costs no more than any left-deep order of the joins, unless the kept plan
of some beginning of that order costs no more than the beginning, but produces another
number of tuples. If pages cost natural numbers, it produces more tuples.
-/
theorem order_le_replay_or_overtaken (hFor : planner.IsFor predicates)
    (hTable : ∀ p ∈ predicates, p.kind = .table) (hVisit : ∀ l, (visit l).Perm l)
    (hPages : WholePages stats) (hSelectivities : NaturalSelectivities selectivities)
    (hOrder : (planner.order visit catalog stats selectivities explained).2.outcome = .ok found)
    (hPerm : other.Perm planner.joins) (hDeep : LeftDeep other) :
    (planner.joins = [] ∧ found = []) ∨ ∃ plans plan,
      (planner.order visit catalog stats selectivities explained).1.last.plans = some plans ∧
      plans.get? (JoinSet.ofList planner.joins) = some plan ∧ found = plan.order ∧
      ((planner.setting catalog stats selectivities).replay none other).Ensures
        PlannerError.IsNumberError fun result => ∃ replayed, result = some replayed ∧
          (plan.cost.le replayed.cost = true ∨ ∃ k kept beginning, 0 < k ∧ k < other.length ∧
            plans.get? (JoinSet.ofList (other.take k)) = some kept ∧
            (planner.setting catalog stats selectivities).replay none (other.take k) =
              .ok (some beginning) ∧
            kept.cost.le beginning.cost = true ∧ kept.cardinality ≠ beginning.cardinality ∧
            (NaturalPages stats → beginning.cardinality < kept.cardinality)) := by
  rcases order_cases hOrder with ⟨hJoins, hFound, -⟩ |
    ⟨hJoins, plans, plan, hFind, hPlans, hPlan, hFound⟩
  · exact Or.inl ⟨hJoins, hFound⟩
  have hNe : other ≠ [] := fun hNil => hJoins (hNil ▸ hPerm).nil_eq.symm
  have hNodup : other.Nodup := hPerm.nodup_iff.mpr hFor.distinct.nodup
  obtain ⟨kept, hKept, hReplay⟩ := ensures_le_or_overtaken hFor hTable hVisit hPages
    hSelectivities hFind hNodup (fun p hp => hPerm.mem_iff.mp hp) hDeep hNe
  -- the order is of all joins, so their plan is the one that is returned
  rw [plans.get?_ofList_perm hPerm, hPlan, Option.some.injEq] at hKept
  subst hKept
  refine Or.inr ⟨plans, plan, hPlans, hPlan, hFound, hReplay.mono ?_⟩
  rintro result - ⟨replayed, hResult, hLe | ⟨k, kept, beginning, hk, hLt, hGet, hBeginning, hLe,
    hNot⟩⟩
  · exact ⟨replayed, hResult, Or.inl hLe⟩
  · refine ⟨replayed, hResult, Or.inr ⟨k, kept, beginning, hk, hLt, hGet, hBeginning, hLe,
      fun hEq => hNot ⟨hLe, Or.inl hEq⟩, fun hNatural => ?_⟩⟩
    by_contra hMore
    exact hNot ⟨hLe, Or.inr ⟨naturalScans_of_stats hNatural, Int.not_lt.mp hMore⟩⟩

/-- The statement at the chain, which a kept plan overtakes if it is executed from the middle. -/
theorem order_le_replay_or_overtaken_chain :
    ∃ plans k kept beginning,
      ((samplePlanner chainJoins).order List.reverse sampleCatalog sampleStats none
        false).1.last.plans = some plans ∧
      0 < k ∧ k < chainFromMiddle.length ∧
      plans.get? (JoinSet.ofList (chainFromMiddle.take k)) = some kept ∧
      ((samplePlanner chainJoins).setting sampleCatalog sampleStats none).replay none
        (chainFromMiddle.take k) = .ok (some beginning) ∧
      kept.cost.le beginning.cost = true ∧ beginning.cardinality < kept.cardinality := by
  obtain ⟨found, plans, plan, hOrder, hPlans, hPlan, -, hCost⟩ := exists_chain_order
  obtain ⟨replayed, hReplay, hReplayed⟩ := exists_chainFromMiddle_replay
  have hJoins : (samplePlanner chainJoins).joins ≠ [] := by decide +kernel
  rcases order_le_replay_or_overtaken (isFor_samplePlanner chainJoins) (by decide +kernel)
    (fun l => l.reverse_perm) naturalPages_sampleStats.whole (fun given hGiven => by cases hGiven)
    hOrder (show chainFromMiddle.Perm (samplePlanner chainJoins).joins by decide +kernel)
    (by decide +kernel) with ⟨hNil, -⟩ | ⟨plans', plan', hPlans', hPlan', -, hResult⟩
  · exact absurd hNil hJoins
  obtain rfl : plans = plans' := Option.some.inj (hPlans.symm.trans hPlans')
  obtain rfl : plan = plan' := Option.some.inj (hPlan.symm.trans hPlan')
  obtain ⟨_, hSome, hLe | ⟨k, kept, beginning, hk, hLt, hKept, hBeginning, hLe, -, hMore⟩⟩ :=
    hResult.of_eq_ok hReplay
  · rw [← Option.some.inj hSome, hCost, hReplayed] at hLe
    cases hLe
  · exact ⟨plans, k, kept, beginning, hPlans, hk, hLt, hKept, hBeginning, hLe,
      hMore naturalPages_sampleStats⟩

-- ---------------------------------------------------------------------------
-- Orders that are not overtaken
-- ---------------------------------------------------------------------------

/-- The order replays to a plan that costs no less, unless a number leaves its range. -/
def NoCheaper (s : Setting) (order : List Predicate) (plan : Plan) : Prop :=
  (s.replay none order).Ensures PlannerError.IsNumberError fun result =>
    ∃ replayed, result = some replayed ∧ plan.cost.le replayed.cost = true

/--
If no proper beginning of a left-deep order produces fewer tuples than the kept plan of its
joins, then no beginning is cheaper than that plan, and the order is not cheaper than the
returned one.
-/
theorem prefix_le_replay (hFor : planner.IsFor predicates)
    (hTable : ∀ p ∈ predicates, p.kind = .table) (hVisit : ∀ l, (visit l).Perm l)
    (hPages : NaturalPages stats) (hSelectivities : NaturalSelectivities selectivities)
    (hOrder : (planner.order visit catalog stats selectivities explained).2.outcome = .ok found)
    (hPerm : other.Perm planner.joins) (hDeep : LeftDeep other) :
    ∃ plans, (planner.order visit catalog stats selectivities explained).1.last.plans = some plans ∧
      ((planner.setting catalog stats selectivities).NoFewerTuples plans other →
        (∀ k, 0 < k → k ≤ other.length →
          ∃ kept, plans.get? (JoinSet.ofList (other.take k)) = some kept ∧
            NoCheaper (planner.setting catalog stats selectivities) (other.take k) kept) ∧
        ((planner.joins = [] ∧ found = []) ∨
          ∃ plan, plans.get? (JoinSet.ofList planner.joins) = some plan ∧ found = plan.order ∧
            NoCheaper (planner.setting catalog stats selectivities) other plan)) := by
  rcases order_cases hOrder with ⟨hJoins, hFound, hPlans⟩ |
    ⟨hJoins, plans, plan, hFind, hPlans, hPlan, hFound⟩
  · refine ⟨.empty, hPlans, fun _ => ⟨fun k hk hLe => ?_, Or.inl ⟨hJoins, hFound⟩⟩⟩
    rw [hJoins] at hPerm
    rw [hPerm.eq_nil] at hLe
    exact absurd hk (Nat.not_lt.mpr hLe)
  refine ⟨plans, hPlans, fun hCards => ?_⟩
  have hNatural : (planner.setting catalog stats selectivities).NaturalScans :=
    naturalScans_of_stats hPages
  have hNodup : other.Nodup := hPerm.nodup_iff.mpr hFor.distinct.nodup
  have hPrefix : ∀ k, 0 < k → k ≤ other.length →
      ∃ kept, plans.get? (JoinSet.ofList (other.take k)) = some kept ∧
        NoCheaper (planner.setting catalog stats selectivities) (other.take k) kept := by
    intro k hk hLe
    have hNe : other.take k ≠ [] := List.ne_nil_of_length_pos (by rw [List.length_take]; omega)
    obtain ⟨kept, hKept, hReplay⟩ := ensures_le_or_overtaken hFor hTable hVisit hPages.whole
      hSelectivities hFind (hNodup.sublist (List.take_sublist k other))
      (fun p hp => hPerm.mem_iff.mp (List.mem_of_mem_take hp)) (hDeep.take k) hNe
    refine ⟨kept, hKept, hReplay.mono ?_⟩
    rintro result - ⟨replayed, hResult, hLe | hOvertaken⟩
    · exact ⟨replayed, hResult, hLe⟩
    · exact absurd hOvertaken.of_take (hCards.not_overtaken hNatural)
  refine ⟨hPrefix, Or.inr ⟨plan, hPlan, hFound, ?_⟩⟩
  -- the whole order is its own last beginning
  have hLength : 0 < other.length := by
    rw [hPerm.length_eq]
    exact List.length_pos_iff.mpr hJoins
  obtain ⟨kept, hKept, hNoCheaper⟩ := hPrefix other.length hLength (Nat.le_refl _)
  rw [List.take_length] at hKept hNoCheaper
  rw [plans.get?_ofList_perm hPerm, hPlan, Option.some.injEq] at hKept
  subst hKept
  exact hNoCheaper

/-- The same chain, with its first join at the end. -/
def chainFirstLast : List Predicate :=
  [sampleJoin "B" "id" "C" "v", sampleJoin "C" "v" "D" "id", sampleJoin "A" "id" "B" "id"]

/-- The statement at the chain, no beginning of which is overtaken if its first join is last. -/
theorem prefix_le_replay_chain :
    ∃ plans,
      ((samplePlanner chainJoins).order List.reverse sampleCatalog sampleStats none
        false).1.last.plans = some plans ∧
      ((samplePlanner chainJoins).setting sampleCatalog sampleStats none).NoFewerTuples plans
        chainFirstLast ∧
      ∀ k, 0 < k → k ≤ chainFirstLast.length →
        ∃ kept, plans.get? (JoinSet.ofList (chainFirstLast.take k)) = some kept ∧
          NoCheaper ((samplePlanner chainJoins).setting sampleCatalog sampleStats none)
            (chainFirstLast.take k) kept := by
  obtain ⟨found, -, -, hOrder, -⟩ := exists_chain_order
  obtain ⟨plans, hPlans, hPrefix⟩ := prefix_le_replay (isFor_samplePlanner chainJoins)
    (by decide +kernel) (fun l => l.reverse_perm) naturalPages_sampleStats
    (fun given hGiven => by cases hGiven) hOrder
    (show chainFirstLast.Perm (samplePlanner chainJoins).joins by decide +kernel)
    (by decide +kernel)
  have hCards : (((samplePlanner chainJoins).order List.reverse sampleCatalog sampleStats none
      false).1.last.plans.all fun plans =>
        decide (((samplePlanner chainJoins).setting sampleCatalog sampleStats none).NoFewerTuples
          plans chainFirstLast)) = true := by decide +kernel
  have hNoFewer := of_decide_eq_true ((Option.all_eq_true _ _).mp hCards plans hPlans)
  exact ⟨plans, hPlans, hNoFewer, (hPrefix hNoFewer).1⟩

end Planner

end JoinPlanner
