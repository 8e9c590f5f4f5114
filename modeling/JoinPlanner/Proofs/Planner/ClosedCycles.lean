import JoinPlanner.Proofs.Planner.SecondRun
import JoinPlanner.Proofs.Search.Flips

/-!
# JoinPlanner — joins that close a cycle

A join may come last when a plan has joined both of its tables already. It is reckoned like any
other one: the plan goes to its left side, and the table of its right side is read once more.
So its cost depends on the way it is written, and on nothing else: with its sides exchanged the
other table is read, and if both tables are read alike the two forms agree.

* `Predicate.Closes`   — both tables of a join are in a plan.
* `Setting.closedWith` — a plan that is joined with a table once more, without regard to sides.
* `Setting.estimate_extendBelow`, `Setting.closedWith_flipped` — the step of the search does that.
* `closesCycle`        — both forms of a join that closes a cycle.
* `candidate_of_cycle_differs` — a run in which the two forms cost different amounts.
-/

namespace JoinPlanner

open Outcome

-- ---------------------------------------------------------------------------
-- Cycles
-- ---------------------------------------------------------------------------

/-- The set with one more member. -/
def JoinSet.including (set : JoinSet) (join : Predicate) : JoinSet := ⟨set.members ++ [join]⟩

theorem JoinSet.without_including {set : JoinSet} {join : Predicate} (h : join ∉ set.members) :
    (set.including join).without join = set := by
  have hKept : set.members.filter (fun p => !(p == join)) = set.members :=
    List.filter_eq_self.mpr fun p hp => by
      simpa using fun hSame : p = join => h (hSame ▸ hp)
  show (⟨(set.members ++ [join]).filter fun p => !(p == join)⟩ : JoinSet) = set
  rw [List.filter_append, hKept]
  simp

/-- A join of two tables that a plan has joined already. -/
structure Predicate.Closes (p : Predicate) (plan : Plan) : Prop where
  kind : p.isSubplan = false
  left : joinsTable plan.order p.left.table = true
  right : joinsTable plan.order p.right.table = true

theorem Predicate.Closes.flipped {p : Predicate} {plan : Plan} (h : p.Closes plan) :
    p.flipped.Closes plan := by
  obtain ⟨hLeft, hRight⟩ := flipped_sides h.kind
  exact ⟨p.isSubplan_flipped.trans h.kind, hLeft ▸ h.right, hRight ▸ h.left⟩

/-- The larger table bounds a join, whichever side it is on. -/
theorem joinCardinality_converse (operator : Comparison) (leftCard rightCard : Cardinality)
    (leftKey rightKey : Bool) (leftTotal rightTotal : Cardinality) (fraction : Quantity) :
    joinCardinality operator.converse leftCard rightCard leftKey rightKey rightTotal leftTotal
        fraction =
      joinCardinality operator leftCard rightCard leftKey rightKey leftTotal rightTotal
        fraction := by
  have hEqual : operator.converse.isEqual = operator.isEqual := by cases operator <;> rfl
  rw [joinCardinality, joinCardinality, hEqual, Int.max_comm rightTotal]

namespace Setting

variable {s : Setting} {p : Predicate} {plan : Plan} {bound : Cost}

/--
The estimate of a plan that is joined with a table: the cheaper one of the two nested loops,
unless it reaches the bound.
-/
def closing (s : Setting) (p : Predicate) (bound : Cost) (plan fresh : JoinInput) :
    Outcome (Option Estimate) := do
  let outer ← joinCost p plan.cardinality fresh.cardinality plan.cost fresh.cost
  let inner ← joinCost p fresh.cardinality plan.cardinality fresh.cost plan.cost
  let cost := if inner.lt outer then inner else outer
  if bound.le cost then return none
  return some (cost, ← s.joinCardinality p plan.cardinality fresh.cardinality plan.key fresh.key)

-- ---------------------------------------------------------------------------
-- Sides
-- ---------------------------------------------------------------------------

/-- The cost of a join of two tables does not depend on its condition. -/
theorem joinCost_flipped (hKind : p.isSubplan = false) (outerCard innerCard : Cardinality)
    (outerCost innerCost : Cost) :
    joinCost p.flipped outerCard innerCard outerCost innerCost =
      joinCost p outerCard innerCard outerCost innerCost := by
  rw [joinCost, joinCost, p.isSubplan_flipped, hKind]

/-- Two look-ups may be exchanged, if one of them succeeds. -/
theorem bind_comm {α β γ : Type} {x : Outcome α} {y : Outcome β}
    (h : (∃ a, x = .ok a) ∨ ∃ b, y = .ok b) (f : α → β → Outcome γ) :
    (x >>= fun a => y >>= fun b => f a b) = y >>= fun b => x >>= fun a => f a b := by
  rcases h with ⟨a, rfl⟩ | ⟨b, rfl⟩
  · rfl
  · rfl

/-- A join with exchanged sides produces as many tuples, also of exchanged inputs. -/
theorem joinCardinality_flipped (hKind : p.isSubplan = false)
    (hStats : (∃ stats, s.statsOf p.left.table = .ok stats) ∨
      ∃ stats, s.statsOf p.right.table = .ok stats)
    (leftCard rightCard : Cardinality) (leftKey rightKey : Bool) :
    s.joinCardinality p.flipped leftCard rightCard leftKey rightKey =
      s.joinCardinality p leftCard rightCard leftKey rightKey ∧
    s.joinCardinality p.flipped rightCard leftCard rightKey leftKey =
      s.joinCardinality p leftCard rightCard leftKey rightKey := by
  obtain ⟨kind, left, operator, right⟩ := p
  cases kind with
  | subplan => cases hKind
  | table =>
    have hGiven : s.joinCardinality ⟨.table, left, operator, right⟩ leftCard rightCard leftKey
        rightKey = s.statsOf right.table >>= fun r => s.statsOf left.table >>= fun l =>
          liftM (JoinPlanner.joinCardinality operator leftCard rightCard leftKey rightKey l.tuples
            r.tuples s.fraction) :=
      bind_comm hStats fun l r => liftM (JoinPlanner.joinCardinality operator leftCard rightCard
        leftKey rightKey l.tuples r.tuples s.fraction)
    refine ⟨Eq.trans ?_ hGiven.symm, Eq.trans ?_ hGiven.symm⟩
    · refine bind_congr fun r => bind_congr fun l => congrArg liftM ?_
      exact joinCardinality_converse operator leftCard rightCard leftKey rightKey _ _ _
    · refine bind_congr fun r => bind_congr fun l => congrArg liftM ?_
      exact joinCardinality_comm operator leftCard rightCard leftKey rightKey _ _ _

theorem scanOf_of_scanInput {side : Operand} {input : JoinInput}
    (h : s.scanInput side = .ok input) :
    s.scanOf side.table = .ok (input.cost, input.cardinality) := by
  simp only [scanInput, bind_eq_ok, pure_eq_ok] at h
  obtain ⟨scan, hScan, key, -, rfl⟩ := h
  exact hScan

theorem exists_statsOf_of_scanInput {side : Operand} {input : JoinInput}
    (h : s.scanInput side = .ok input) : ∃ stats, s.statsOf side.table = .ok stats := by
  have hScan := scanOf_of_scanInput h
  rw [scanOf] at hScan
  split at hScan
  · cases hScan
  · obtain ⟨stats, hStats, -⟩ := bind_eq_ok.mp hScan
    exact ⟨stats, hStats⟩

-- ---------------------------------------------------------------------------
-- Extension
-- ---------------------------------------------------------------------------

/-- The two orientations of a join of two tables, and the cheaper one of them. -/
theorem orient_of_table (hKind : p.isSubplan = false) (l r : JoinInput) : orient p l r = do
    let outer ← joinCost p l.cardinality r.cardinality l.cost r.cost
    let inner ← joinCost p r.cardinality l.cardinality r.cost l.cost
    return if inner.lt outer then ⟨p.flipped, r, l, inner⟩ else ⟨p, l, r, outer⟩ := by
  unfold orient asGiven
  rw [hKind, joinCost_flipped hKind]
  cases joinCost p l.cardinality r.cardinality l.cost r.cost with
  | error e => rfl
  | ok outer => cases joinCost p r.cardinality l.cardinality r.cost l.cost <;> rfl

/-- The cheaper orientation of a join, completed unless it reaches the bound. -/
theorem estimate_of_orient (hKind : p.isSubplan = false)
    (hStats : (∃ stats, s.statsOf p.left.table = .ok stats) ∨
      ∃ stats, s.statsOf p.right.table = .ok stats) (previous : Option Plan) (l r : JoinInput) :
    (liftM (orient p l r) >>= fun o =>
      if bound.le o.cost then pure none
      else s.complete previous o >>= fun plan => pure (some plan) : Outcome (Option Plan)).map
        (Option.map Plan.estimate) = s.closing p bound l r := by
  have hCard := joinCardinality_flipped hKind hStats l.cardinality r.cardinality l.key r.key
  -- both orientations have the same cardinality, so only the cost depends on the choice
  have hComplete : ∀ o : Oriented, s.joinCardinality o.join o.left.cardinality o.right.cardinality
      o.left.key o.right.key = s.joinCardinality p l.cardinality r.cardinality l.key r.key →
      (if bound.le o.cost then pure none
        else s.complete previous o >>= fun plan => pure (some plan) : Outcome (Option Plan)).map
          (Option.map Plan.estimate) =
      if bound.le o.cost then pure none
      else s.joinCardinality p l.cardinality r.cardinality l.key r.key >>= fun cardinality =>
        pure (some (o.cost, cardinality)) := by
    intro o hSame
    split
    · rfl
    · rw [complete, hSame]
      cases s.joinCardinality p l.cardinality r.cardinality l.key r.key <;> rfl
  rw [orient_of_table hKind, closing]
  cases joinCost p l.cardinality r.cardinality l.cost r.cost with
  | error e => rfl
  | ok outer =>
    cases joinCost p r.cardinality l.cardinality r.cost l.cost with
    | error e => rfl
    | ok inner =>
      show (if bound.le (if inner.lt outer then (⟨p.flipped, r, l, inner⟩ : Oriented)
          else ⟨p, l, r, outer⟩).cost then pure none
        else s.complete previous (if inner.lt outer then ⟨p.flipped, r, l, inner⟩
          else ⟨p, l, r, outer⟩) >>= fun plan => pure (some plan) : Outcome (Option Plan)).map
            (Option.map Plan.estimate) =
        if bound.le (if inner.lt outer then inner else outer) then pure none
        else s.joinCardinality p l.cardinality r.cardinality l.key r.key >>= fun cardinality =>
          pure (some (if inner.lt outer then inner else outer, cardinality))
      cases inner.lt outer with
      | true => exact hComplete ⟨p.flipped, r, l, inner⟩ hCard.2
      | false => exact hComplete ⟨p, l, r, outer⟩ rfl

/-- The estimate of a plan that is joined with the table of a side, which is read once more. -/
def closedWith (s : Setting) (p : Predicate) (bound : Cost) (plan : Plan) (side : Operand) :
    Outcome (Option Estimate) := do
  let joined ← s.planInput plan
  let fresh ← s.scanInput side
  s.closing p bound joined fresh

/-- A join that closes a cycle reads its right table once more. -/
theorem estimate_extendBelow (h : p.Closes plan) (bound : Cost) :
    (s.extendBelow bound (some plan) p).map (Option.map Plan.estimate) =
      s.closedWith p bound plan p.right := by
  have hInputs : s.inputs? (some plan) p = do
      let joined ← s.planInput plan
      let fresh ← s.scanInput p.right
      return some (joined, fresh) := by
    unfold inputs?
    dsimp only
    rw [if_pos h.left, innerInput_of_table h.kind]
  rw [extendBelow, hInputs, closedWith]
  cases s.planInput plan with
  | error e => rfl
  | ok joined =>
    cases hScan : s.scanInput p.right with
    | error e => rfl
    | ok fresh =>
      exact estimate_of_orient h.kind (Or.inr (exists_statsOf_of_scanInput hScan)) _ joined fresh

/-- It does not matter how the join is written, apart from the table that is read. -/
theorem closedWith_flipped (hKind : p.isSubplan = false) (bound : Cost) (plan : Plan)
    {side : Operand} (hSide : side = p.left ∨ side = p.right) :
    s.closedWith p.flipped bound plan side = s.closedWith p bound plan side := by
  refine bind_congr fun joined => ?_
  cases hScan : s.scanInput side with
  | error e => rfl
  | ok fresh =>
    have hStats : (∃ stats, s.statsOf p.left.table = .ok stats) ∨
        ∃ stats, s.statsOf p.right.table = .ok stats := by
      have hFound := exists_statsOf_of_scanInput hScan
      rcases hSide with rfl | rfl
      · exact Or.inl hFound
      · exact Or.inr hFound
    show s.closing p.flipped bound joined fresh = s.closing p bound joined fresh
    simp only [closing, joinCost_flipped hKind]
    rw [(joinCardinality_flipped hKind hStats joined.cardinality fresh.cardinality joined.key
      fresh.key).1]

/-- The cost is that of the cheaper nested loop, whatever the keys are. -/
theorem cost_of_closedWith {side : Operand} {estimate : Estimate}
    (h : s.closedWith p bound plan side = .ok (some estimate)) :
    ∃ cost cardinality outer inner, s.scanOf side.table = .ok (cost, cardinality) ∧
      joinCost p plan.cardinality cardinality plan.cost cost = .ok outer ∧
      joinCost p cardinality plan.cardinality cost plan.cost = .ok inner ∧
      estimate.1 = if inner.lt outer then inner else outer := by
  obtain ⟨joined, hJoined, h⟩ := bind_eq_ok.mp h
  obtain ⟨fresh, hFresh, h⟩ := bind_eq_ok.mp h
  obtain ⟨hCost, hCard⟩ := planInput_cost hJoined
  simp only [closing, bind_eq_ok, liftM_number, ofNumber_eq_ok] at h
  obtain ⟨outer, hOuter, inner, hInner, h⟩ := h
  rw [hCost, hCard] at hOuter hInner
  refine ⟨_, _, outer, inner, scanOf_of_scanInput hFresh, hOuter, hInner, ?_⟩
  generalize (if inner.lt outer then inner else outer) = cost at h ⊢
  split at h
  · cases h
  · obtain ⟨_, -, h⟩ := bind_eq_ok.mp h
    cases h
    rfl

theorem candidate_including {known : JoinSet → Option Plan} {set : JoinSet}
    (hPlan : known set = some plan) (hSet : set.members ≠ []) (hNew : p ∉ set.members) :
    s.candidate known (set.including p) bound p = s.extendBelow bound (some plan) p := by
  unfold candidate
  rw [JoinSet.without_including hNew]
  simp [hPlan, hSet]

end Setting

-- ---------------------------------------------------------------------------
-- Both forms
-- ---------------------------------------------------------------------------

/-- What both forms of a join that closes a cycle are reckoned to cost and to produce. -/
structure ClosesCycle (s : Setting) (known : JoinSet → Option Plan) (set : JoinSet) (plan : Plan)
    (p : Predicate) (bound : Cost) : Prop where
  /-- The plan is joined with the right table of the join, which is read once more. -/
  given : (s.candidate known (set.including p) bound p).map (Option.map Plan.estimate) =
    s.closedWith p bound plan p.right
  /-- With its sides exchanged it is joined with the left table, and nothing else changes. -/
  exchanged : (s.candidate known (set.including p.flipped) bound p.flipped).map
    (Option.map Plan.estimate) = s.closedWith p bound plan p.left
  /-- If both tables are read alike, then both forms have the same estimate, or fail alike. -/
  agree : s.scanInput p.left = s.scanInput p.right →
    (s.candidate known (set.including p) bound p).map (Option.map Plan.estimate) =
      (s.candidate known (set.including p.flipped) bound p.flipped).map (Option.map Plan.estimate)
  /-- For the costs alone it does not matter which of the columns are keys. -/
  cost : s.scanOf p.left.table = s.scanOf p.right.table → ∀ given exchanged,
    s.candidate known (set.including p) bound p = .ok (some given) →
    s.candidate known (set.including p.flipped) bound p.flipped = .ok (some exchanged) →
    given.cost = exchanged.cost

/-- The way a join is written matters only for the table that it reads once more. -/
theorem closesCycle {s : Setting} {known : JoinSet → Option Plan} {set : JoinSet} {plan : Plan}
    {p : Predicate} (hPlan : known set = some plan) (hSet : set.members ≠ [])
    (hNew : p ∉ set.members) (hNew' : p.flipped ∉ set.members) (h : p.Closes plan) (bound : Cost) :
    ClosesCycle s known set plan p bound := by
  have hGiven := Setting.estimate_extendBelow (s := s) h bound
  have hExchanged := Setting.estimate_extendBelow (s := s) h.flipped bound
  rw [(flipped_sides h.kind).2, Setting.closedWith_flipped h.kind bound plan (Or.inl rfl)]
    at hExchanged
  rw [← Setting.candidate_including hPlan hSet hNew] at hGiven
  rw [← Setting.candidate_including hPlan hSet hNew'] at hExchanged
  refine ⟨hGiven, hExchanged, fun hScan => ?_, fun hScan given exchanged hOk hOk' => ?_⟩
  · rw [hGiven, hExchanged, Setting.closedWith, Setting.closedWith, hScan]
  · rw [hOk] at hGiven
    rw [hOk'] at hExchanged
    obtain ⟨_, _, outer, inner, hRight, hOuter, hInner, hCost⟩ :=
      Setting.cost_of_closedWith hGiven.symm
    obtain ⟨_, _, outer', inner', hLeft, hOuter', hInner', hCost'⟩ :=
      Setting.cost_of_closedWith hExchanged.symm
    cases hLeft.symm.trans (hScan.trans hRight)
    cases hOuter.symm.trans hOuter'
    cases hInner.symm.trans hInner'
    exact hCost.trans hCost'.symm

-- ---------------------------------------------------------------------------
-- A triangle
-- ---------------------------------------------------------------------------

/-- Two joins of three tables with one, two and three tuples. -/
def pathJoins : List Predicate := [sampleJoin "B" "v" "C" "v", sampleJoin "C" "v" "D" "v"]

/-- The join that closes the cycle. -/
def triangleJoin : Predicate := sampleJoin "B" "id" "D" "id"

/-- The plans that a run finds for the two joins. -/
def pathPlans : PlanTable :=
  ((samplePlanner pathJoins).findPlans id sampleCatalog sampleStats none).outcome.toOption.getD
    .empty

/-- The plan of both joins. -/
def pathPlan : Plan := ⟨.whole 4008, 3, pathJoins⟩

theorem closes_triangleJoin : triangleJoin.Closes pathPlan :=
  ⟨rfl, by decide +kernel, by decide +kernel⟩

/-- The statement at the triangle. -/
theorem closesCycle_triangle :
    pathPlans.get? (JoinSet.ofList pathJoins) = some pathPlan ∧ triangleJoin.Closes pathPlan ∧
      ClosesCycle ((samplePlanner pathJoins).setting sampleCatalog sampleStats none)
        pathPlans.get? (JoinSet.ofList pathJoins) pathPlan triangleJoin unbounded := by
  have hPlan : pathPlans.get? (JoinSet.ofList pathJoins) = some pathPlan := by decide +kernel
  exact ⟨hPlan, closes_triangleJoin, closesCycle hPlan (by decide +kernel) (by decide +kernel)
    (by decide +kernel) closes_triangleJoin unbounded⟩

/--
With the plans of a run, the join of the smallest and the largest table costs more if the
largest one is on its right and read once more.
-/
theorem candidate_of_cycle_differs :
    ∃ given exchanged,
      ((samplePlanner pathJoins).findPlans id sampleCatalog sampleStats none).outcome =
        .ok pathPlans ∧
      pathPlans.get? (JoinSet.ofList pathJoins) = some pathPlan ∧
      triangleJoin ∉ pathJoins ∧ triangleJoin.flipped ∉ pathJoins ∧
      triangleJoin.Closes pathPlan ∧
      ((samplePlanner pathJoins).setting sampleCatalog sampleStats none).candidate pathPlans.get?
        ((JoinSet.ofList pathJoins).including triangleJoin) unbounded triangleJoin =
          .ok (some given) ∧
      ((samplePlanner pathJoins).setting sampleCatalog sampleStats none).candidate pathPlans.get?
        ((JoinSet.ofList pathJoins).including triangleJoin.flipped) unbounded
          triangleJoin.flipped = .ok (some exchanged) ∧
      given.cost = .whole 7017 ∧ exchanged.cost = .whole 5011 := by
  obtain ⟨plans, hFind⟩ := exists_eq_ok_of_isSome (x := ((samplePlanner pathJoins).findPlans id
    sampleCatalog sampleStats none).outcome) (by decide +kernel)
  have hPlans : pathPlans = plans := by
    rw [pathPlans, hFind]
    rfl
  refine ⟨⟨.whole 7017, 3, pathJoins ++ [triangleJoin]⟩,
    ⟨.whole 5011, 3, pathJoins ++ [triangleJoin]⟩, hPlans ▸ hFind, by decide +kernel,
    by decide +kernel, by decide +kernel, closes_triangleJoin, ?_, ?_, rfl, rfl⟩
  · exact eq_ok_of_toOption (by decide +kernel)
  · exact eq_ok_of_toOption (by decide +kernel)

end JoinPlanner
