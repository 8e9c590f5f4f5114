import JoinPlanner.Proofs.Planner.Explained
import JoinPlanner.Proofs.Planner.LeftDeepPlans
import JoinPlanner.Proofs.Search.WholeCosts

/-!
# JoinPlanner — the trees of returned orders

The tree of an order that a run has returned is complete: its joins stand one above the
other with the estimates that the run has kept, each table is scanned once, and each join
with a subplan has its subquery. There is nothing else in it.

* `CompleteTree`       — what such a tree looks like.
* `order_eq_run`       — asking for an explanation changes no outcome.
* `order_explained`    — every returned order with joins has a complete tree.
-/

namespace JoinPlanner

open Outcome

/-- The joins of an order include as many subplans as the joins that it executes. -/
theorem subplans_of_executes {order joins : List Predicate} (h : Executes order joins) :
    PlanNode.subplans order = PlanNode.subplans joins := by
  obtain ⟨given, hPerm, hMatch⟩ := h
  rw [PlanNode.subplans, PlanNode.subplans, ← hPerm.countP_eq]
  congr 1
  clear hPerm
  induction hMatch with
  | nil => rfl
  | cons hSame _ ih => rw [List.countP_cons, List.countP_cons, ih, hSame.isSubplan_eq]

namespace Planner

variable {planner : Planner} {predicates : List Predicate} {visit : Visit} {catalog : Catalog}
  {stats : Snapshot} {selectivities : Option Selectivities} {explained : Bool}
  {found : List Predicate}

/-- The node is the scan of a table with its cost and its filtered cardinality. -/
def IsScanOf (s : Setting) (table : Option String) (node : PlanNode) : Prop :=
  ∃ cost card, s.scanOf table = .ok (cost, card) ∧ node = .scan table cost card

/-- The tree of an order: its joins one above the other, over the scans of their tables. -/
structure CompleteTree (planner : Planner) (s : Setting) (plans : PlanTable)
    (found : List Predicate) (e : Explanation) : Prop where
  order : e.order = found
  length : e.steps.length = found.length
  /-- A step executes its join and has the estimates that were kept for the joins so far. Of
  the nodes right below it exactly one is a join, the step before; the first one has none. -/
  step : ∀ i (hi : i < found.length), ∃ kept children,
    plans.get? (JoinSet.ofList (planner.given (found.take (i + 1)))) = some kept ∧
    e.steps[i]? = some (.join found[i] kept.cost kept.cardinality children) ∧
    children.filter PlanNode.isJoin = if i = 0 then [] else e.steps[i - 1]?.toList
  /-- All nodes are steps, scans of the tables of the joins, each once, and subplans. -/
  root : ∃ root kept scans, e.root? = some root ∧
    plans.get? (JoinSet.ofList planner.joins) = some kept ∧
    root.cost = kept.cost ∧ root.cardinality = kept.cardinality ∧
    List.Forall₂ (IsScanOf s) (Predicate.tablesIn planner.joins) scans ∧
    root.preorder.Perm (e.steps ++ scans ++ PlanNode.subplans planner.joins)

theorem forall₂_filterMap {α β : Type} {R : α → β → Prop} {f : α → Option β} {items : List α}
    (h : ∀ a ∈ items, ∃ b, f a = some b ∧ R a b) : List.Forall₂ R items (items.filterMap f) := by
  induction items with
  | nil => exact .nil
  | cons a rest ih =>
    obtain ⟨b, hSome, hRel⟩ := h a List.mem_cons_self
    rw [List.filterMap_cons_some hSome]
    exact .cons hRel (ih fun c hc => h c (List.mem_cons_of_mem a hc))

/-- The estimates of a step are those of the plan that is kept for the joins so far. -/
theorem exists_kept_of_stepEstimates {plans : PlanTable} {order : List Predicate}
    {estimates : List Estimate} (h : planner.stepEstimates plans order = .ok estimates) {i : Nat}
    (hi : i < order.length) : ∃ kept,
      plans.get? (JoinSet.ofList (planner.given (order.take (i + 1)))) = some kept ∧
      estimates[i]? = some (kept.cost, kept.cardinality) := by
  have hAll := forall₂_of_mapM h
  have hRange : i < (List.range' 1 order.length).length := by simpa using hi
  have hi' : i < estimates.length := hAll.length_eq ▸ hRange
  have hStep := hAll.get hRange hi'
  simp only [List.get_eq_getElem, List.getElem_range', Nat.one_mul, setEstimate] at hStep
  rw [Nat.add_comm i 1]
  obtain ⟨joins, hJoins, hStep⟩ := bind_eq_ok.mp hStep
  rw [given_of_mapM hJoins]
  split at hStep
  · rename_i kept hKept
    refine ⟨kept, hKept, ?_⟩
    rw [List.getElem?_eq_getElem hi', pure_eq_ok.mp hStep]
  · cases hStep

section Covered

variable {s : Setting} {plans : PlanTable} {scans : ScanEstimates} {estimates : List Estimate}
  {placed : Placement} {read : List (Option String)}

/-- The tables that the joins of an order have read are those of the joins it executes. -/
theorem perm_tablesIn_of_covers {order joins : List Predicate} (hExecutes : Executes order joins)
    (hNodes : ∀ p ∈ joins, JoinGraph.HasNodes p) (hLength : order.length = estimates.length)
    (hCovers : Placement.Covers scans (order.zip estimates) placed read) :
    read.Perm (Predicate.tablesIn joins) := by
  refine (List.perm_ext_iff_of_nodup hCovers.nodup (Predicate.nodup_tablesIn joins)).mpr
    fun table => ?_
  have hSteps : (∃ step ∈ order.zip estimates, table ∈ Placement.sides step.1) ↔
      ∃ q ∈ order, table ∈ Placement.sides q := by
    conv => rhs; rw [← List.map_fst_zip (Nat.le_of_eq hLength)]
    simp only [List.mem_map, exists_exists_and_eq_and]
  rw [hCovers.mem, Predicate.mem_tablesIn, hSteps]
  constructor
  · rintro ⟨q, hq, hSide⟩
    obtain ⟨p, hp, hSame⟩ := exists_sameJoin_of_mem hExecutes hq
    have hTable := Placement.mem_tables_of_mem_sides ((hNodes p hp).of_sameJoin hSame) hSide
    exact ⟨p, hp, hSame.mem_tables_iff.mp hTable⟩
  · rintro ⟨p, hp, hTable⟩
    obtain ⟨q, hq, hSame⟩ := exists_mem_of_executes hExecutes hp
    exact ⟨q, hq, Placement.mem_sides_of_mem_tables (hSame.mem_tables_iff.mpr hTable)⟩

/-- A step has the estimates that were kept, and the step before below itself. -/
theorem exists_step_of_covers {order : List Predicate}
    (hEstimates : planner.stepEstimates plans order = .ok estimates)
    (hCovers : Placement.Covers scans (order.zip estimates) placed read)
    (hSteps : placed.steps.length = order.length) {i : Nat} (hi : i < order.length) :
    ∃ kept children,
      plans.get? (JoinSet.ofList (planner.given (order.take (i + 1)))) = some kept ∧
      placed.steps[i]? = some (.join order[i] kept.cost kept.cardinality children) ∧
      children.filter PlanNode.isJoin = if i = 0 then [] else placed.steps[i - 1]?.toList := by
  obtain ⟨kept, hKept, hEstimate⟩ := exists_kept_of_stepEstimates hEstimates hi
  have hZip : (order.zip estimates)[i]? = some (order[i], kept.cost, kept.cardinality) :=
    List.getElem?_zip_eq_some.mpr ⟨List.getElem?_eq_getElem hi, hEstimate⟩
  obtain ⟨children, hNode, hBelow, -⟩ := hCovers.step i _ _ _ hZip
  refine ⟨kept, children, hKept, hNode, ?_⟩
  rw [hBelow, List.getLast?_take]
  split
  · rfl
  · have hBefore : i - 1 < placed.steps.length := by omega
    rw [List.getElem?_eq_getElem hBefore, Option.some_or]

/-- The tree that a run has made possible is complete. -/
theorem completeTree_of_covers {plan : Plan} (hJoins : planner.joins ≠ [])
    (hExecutes : Executes plan.order planner.joins)
    (hPlan : plans.get? (JoinSet.ofList planner.joins) = some plan)
    (hGiven : (planner.given plan.order).Perm planner.joins)
    (hScans : scansOf s planner.joins = .ok scans)
    (hNodes : ∀ p ∈ planner.joins, JoinGraph.HasNodes p)
    (hEstimates : planner.stepEstimates plans plan.order = .ok estimates)
    (hLength : plan.order.length = estimates.length)
    (hCovers : Placement.Covers scans (plan.order.zip estimates) placed read) :
    CompleteTree planner s plans plan.order ⟨plan.order, placed.steps⟩ := by
  have hSteps : placed.steps.length = plan.order.length := by
    rw [hCovers.length, List.length_zip, ← hLength, Nat.min_self]
  refine ⟨rfl, hSteps, fun i hi => exists_step_of_covers hEstimates hCovers hSteps hi, ?_⟩
  -- the root is the last step, after which all joins have been executed
  have hPos : 0 < plan.order.length := by
    rw [length_of_executes hExecutes]
    exact List.length_pos_iff.mpr hJoins
  obtain ⟨kept, children, hKept, hNode, -⟩ :=
    exists_step_of_covers hEstimates hCovers hSteps (i := plan.order.length - 1) (by omega)
  obtain rfl : plan = kept := by
    have hAll : plan.order.length - 1 + 1 = plan.order.length := by omega
    rw [hAll, List.take_length, plans.get?_ofList_perm hGiven] at hKept
    exact Option.some.inj (hPlan.symm.trans hKept)
  have hRoot : placed.steps.getLast? =
      some (.join plan.order[plan.order.length - 1] plan.cost plan.cardinality children) := by
    rw [List.getLast?_eq_getElem?, hSteps, hNode]
  have hNodesBelow := hCovers.nodes
  rw [hRoot, Option.toList_some, PlanNode.preorders, PlanNode.preorders, List.append_nil,
    List.map_fst_zip (Nat.le_of_eq hLength), subplans_of_executes hExecutes] at hNodesBelow
  refine ⟨_, plan, (Predicate.tablesIn planner.joins).filterMap (Placement.scanNode scans), hRoot,
    hPlan, rfl, rfl, forall₂_filterMap fun table hTable => ?_, hNodesBelow.trans ?_⟩
  · obtain ⟨⟨cost, card⟩, hGet, hScan⟩ := exists_scan_of_scansOf hScans hTable
    exact ⟨.scan table cost card, by rw [Placement.scanNode, hGet]; rfl, cost, card, hScan, rfl⟩
  · have hRead := perm_tablesIn_of_covers hExecutes hNodes hLength hCovers
    exact ((hRead.filterMap _).append_left _).append_right _

end Covered

-- ---------------------------------------------------------------------------
-- Returned orders
-- ---------------------------------------------------------------------------

/-- Explaining an order later reads what its run has left behind. -/
theorem explain_order :
    (planner.order visit catalog stats selectivities explained).1.explain =
      explain { planner with last := (planner.run visit catalog stats selectivities).1 } := by
  obtain ⟨explanation, hLast⟩ :=
    exists_explanation_of_order planner visit catalog stats selectivities explained
  rw [hLast]
  rfl

/-- Without joins there is an empty tree. -/
theorem explain_of_nil (h : planner.joins = []) :
    explain { planner with last := (planner.run visit catalog stats selectivities).1 } =
      .ok ⟨[], []⟩ := by
  rw [run, if_pos (List.isEmpty_iff.mpr h)]
  rfl

/-- A run that returns an order has left all that an explanation needs. -/
theorem exists_explain_of_run (hFor : planner.IsFor predicates) (hVisit : ∀ l, (visit l).Perm l)
    (hRun : (planner.run visit catalog stats selectivities).2.outcome = .ok found) :
    ∃ e, explain { planner with last := (planner.run visit catalog stats selectivities).1 } =
      .ok e := by
  have hOrder :
      (planner.order visit catalog stats selectivities false).2.outcome = .ok found := by
    rw [outcome_order, hRun]
    rfl
  rcases order_cases hOrder with ⟨hJoins, -, -⟩ | ⟨hJoins, plans, plan, hFind, -, hPlan, -⟩
  · exact ⟨⟨[], []⟩, explain_of_nil hJoins⟩
  · obtain ⟨scans, hScans⟩ := exists_scansOf (searched_of_findPlans hFor hVisit hFind) hVisit
    obtain ⟨_, _, _, -, -, hExplain, -⟩ := exists_explain hFor hVisit hJoins hFind hPlan hScans
    exact ⟨_, hExplain⟩

/-- Asking for an explanation changes no outcome. -/
theorem order_eq_run (hFor : planner.IsFor predicates) (hVisit : ∀ l, (visit l).Perm l) :
    (planner.order visit catalog stats selectivities explained).2.outcome =
      (planner.run visit catalog stats selectivities).2.outcome := by
  cases hRun : (planner.run visit catalog stats selectivities).2.outcome with
  | error e => exact order_of_error hRun
  | ok found =>
    obtain ⟨e, hExplain⟩ := exists_explain_of_run hFor hVisit hRun
    rw [outcome_order, hRun, hExplain]
    cases explained <;> rfl

/--
The order of a run that returns one can be explained, unless it has no joins, and its tree is
complete.
-/
theorem order_explained (hFor : planner.IsFor predicates) (hVisit : ∀ l, (visit l).Perm l)
    (hOrder : (planner.order visit catalog stats selectivities explained).2.outcome = .ok found)
    (hFound : found ≠ []) :
    ∃ plans e, (planner.order visit catalog stats selectivities explained).1.last.plans =
        some plans ∧
      (planner.order visit catalog stats selectivities explained).1.explain = .ok e ∧
      CompleteTree planner (planner.setting catalog stats selectivities) plans found e := by
  rcases order_cases hOrder with ⟨-, hNil, -⟩ | ⟨hJoins, plans, plan, hFind, hPlans, hPlan, rfl⟩
  · exact absurd hNil hFound
  · have hSearched := searched_of_findPlans hFor hVisit hFind
    obtain ⟨scans, hScans⟩ := exists_scansOf hSearched hVisit
    obtain ⟨estimates, placed, read, hEstimates, hLength, hExplain, hCovers⟩ :=
      exists_explain hFor hVisit hJoins hFind hPlan hScans
    have hExecutes := executes_of_order hFor hVisit hOrder
    refine ⟨plans, ⟨plan.order, placed.steps⟩, hPlans, explain_order.trans hExplain, ?_⟩
    exact completeTree_of_covers hJoins hExecutes hPlan (hFor.given_perm hExecutes fun p hp => hp)
      hScans (hasNodes_of_checkLinked (exists_of_checks (findPlans_eq_ok_iff.mp hFind).1).2)
      hEstimates hLength hCovers

/-- The statement at the joins of the sample. -/
theorem order_explained_sample :
    ∃ found, found ≠ [] ∧
      ((samplePlanner sampleJoins).order List.reverse sampleCatalog sampleStats none
        true).2.outcome = .ok found ∧
      ∃ plans e, ((samplePlanner sampleJoins).order List.reverse sampleCatalog sampleStats none
          true).1.last.plans = some plans ∧
        ((samplePlanner sampleJoins).order List.reverse sampleCatalog sampleStats none
          true).1.explain = .ok e ∧
        CompleteTree (samplePlanner sampleJoins)
          ((samplePlanner sampleJoins).setting sampleCatalog sampleStats none) plans found e := by
  have hReturns : (((samplePlanner sampleJoins).order List.reverse sampleCatalog sampleStats none
      true).2.outcome.toOption.any fun found => !found.isEmpty) = true := by decide +kernel
  obtain ⟨found, hOk, hSome⟩ := (Option.any_eq_true _ _).mp hReturns
  have hOrder := eq_ok_of_toOption hOk
  have hFound : found ≠ [] := by simpa using hSome
  exact ⟨found, hFound, hOrder,
    order_explained (isFor_samplePlanner sampleJoins) (fun l => l.reverse_perm) hOrder hFound⟩

end Planner

end JoinPlanner
