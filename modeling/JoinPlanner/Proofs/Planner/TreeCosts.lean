import JoinPlanner.Proofs.Planner.ExplainedTrees
import JoinPlanner.Proofs.Search.Flips

/-!
# JoinPlanner — the costs of trees

The tree of an order is built from the order and its estimates alone. Still the parts of each
of its joins are the inputs that the search has costed: the outer one comes first, whichever of
them is the plan so far. So the cost of every join follows from its two parts.

* `PlanNode.Shows`     — a part with the cost and the cardinality of an input.
* `Inputs.shows_parts` — the parts of a join show its inputs, in their order.
* `AccountedTree`      — a tree whose joins cost what their parts account for.
* `order_accounted`    — every returned order has such a tree.
-/

namespace JoinPlanner

open Outcome Placement

/-- The node has the cost and the cardinality of an input. -/
structure PlanNode.Shows (node : PlanNode) (input : JoinInput) : Prop where
  cost : node.cost = input.cost
  cardinality : node.cardinality = input.cardinality

-- ---------------------------------------------------------------------------
-- The parts of a join
-- ---------------------------------------------------------------------------

/-- The tables that joins have read are those that they join, if they have their aliases. -/
theorem readBy_eq_joinsTable {joins : List Predicate}
    (hNodes : ∀ q ∈ joins, JoinGraph.HasNodes q) : readBy joins = joinsTable joins := by
  funext table
  rw [Bool.eq_iff_iff, readBy_iff, joinsTable_iff]
  constructor
  · rintro ⟨q, hq, hSide⟩
    have hTable := mem_tables_of_mem_sides (hNodes q hq) hSide
    obtain ⟨a, rfl⟩ := Option.isSome_iff_exists.mp ((hNodes q hq).isSome_of_mem_tables hTable)
    exact ⟨q, hq, a, rfl, hTable⟩
  · rintro ⟨q, hq, a, rfl, hTable⟩
    exact ⟨q, hq, mem_sides_of_mem_tables hTable⟩

/-- If both sides are read from one part, this is the join before or the scan of their table. -/
theorem exists_part {scans : ScanEstimates} {known : Option String → Bool}
    {last : Option PlanNode} {p : Predicate} (h : OnePart known p)
    (hScan : ∃ estimate, scans.get? p.left.table = some estimate)
    (hLast : known p.left.table = true → ∃ node, last = some node) :
    ∃ part, partsOf scans known last p = [part] := by
  rw [partsOf, if_pos h, List.append_nil, sourceOf]
  cases hKnown : known p.left.table with
  | true =>
    obtain ⟨node, rfl⟩ := hLast hKnown
    exact ⟨node, rfl⟩
  | false =>
    obtain ⟨⟨cost, card⟩, hGet⟩ := hScan
    rw [scanNode, hGet]
    exact ⟨.scan p.left.table cost card, rfl⟩

section Parts

variable {s : Setting} {scans : ScanEstimates} {p : Predicate} {l r : JoinInput}
  {previous : Option Plan} {last : Option PlanNode}

/-- The scan of a table shows the input that is read from it. -/
theorem shows_scan (known : Option String → Bool) (last : Option PlanNode) {side : Operand}
    {input : JoinInput} (hScan : ∃ estimate, scans.get? side.table = some estimate ∧
      s.scanOf side.table = .ok estimate)
    (hFresh : known side.table = false) (h : s.scanInput side = .ok input) :
    ∃ node : PlanNode, sourceOf scans known last side.table = [node] ∧ node.Shows input := by
  obtain ⟨⟨cost, card⟩, hGet, hOf⟩ := hScan
  rw [Setting.scanInput, hOf] at h
  obtain ⟨_, hEstimate, h⟩ := bind_eq_ok.mp h
  cases hEstimate
  obtain ⟨key, -, h⟩ := bind_eq_ok.mp h
  cases h
  refine ⟨.scan side.table cost card, ?_, rfl, rfl⟩
  rw [sourceOf, hFresh, scanNode, hGet]
  rfl

/-- The join before shows the plan so far, if it has the estimates of that plan. -/
theorem shows_plan (scans : ScanEstimates) (known : Option String → Bool) {plan : Plan}
    {input : JoinInput} {table : Option String} (hShared : known table = true)
    (hLast : ∃ node, last = some node ∧ node.cost = plan.cost ∧
      node.cardinality = plan.cardinality)
    (h : s.planInput plan = .ok input) :
    ∃ node : PlanNode, sourceOf scans known last table = [node] ∧ node.Shows input := by
  obtain ⟨node, rfl, hCost, hCard⟩ := hLast
  obtain ⟨hInput, hInputCard⟩ := Setting.planInput_cost h
  refine ⟨node, ?_, hCost.trans hInput.symm, hCard.trans hInputCard.symm⟩
  rw [sourceOf, hShared]
  rfl

/-- The parts of a join that has two of them show its left input and then its right one. -/
theorem Setting.Inputs.shows_parts (h : s.Inputs previous p l r)
    (hTwo : ¬ OnePart (joinsTable (orderOf previous)) p)
    (hScans : ∀ table ∈ sides p,
      ∃ estimate, scans.get? table = some estimate ∧ s.scanOf table = .ok estimate)
    (hLast : ∀ plan, previous = some plan → ∃ node, last = some node ∧ node.cost = plan.cost ∧
      node.cardinality = plan.cardinality) :
    ∃ outer inner : PlanNode, partsOf scans (joinsTable (orderOf previous)) last p =
      [outer, inner] ∧ outer.Shows l ∧ inner.Shows r := by
  have hLeftSide := left_mem_sides p
  -- the inner input is a subplan, or the scan of a table that was not read before
  have hInner : s.innerInput p = .ok r →
      (p.isSubplan = false → joinsTable (orderOf previous) p.right.table = false) →
      ∃ node : PlanNode, (if p.isSubplan then [.subplan]
        else sourceOf scans (joinsTable (orderOf previous)) last p.right.table) = [node] ∧
        node.Shows r := by
    intro hRead hFresh
    cases hKind : p.isSubplan with
    | true =>
      rw [Setting.innerInput, hKind, if_pos rfl] at hRead
      cases hRead
      exact ⟨.subplan, rfl, rfl, rfl⟩
    | false =>
      rw [Setting.innerInput_of_table hKind] at hRead
      exact shows_scan _ last (hScans _ (right_mem_sides hKind)) (hFresh hKind) hRead
  rw [partsOf, if_neg hTwo]
  cases h with
  | first left right =>
    obtain ⟨outer, hOuter, hShows⟩ :=
      shows_scan (joinsTable (orderOf none)) last (hScans _ hLeftSide)
        (by simp [joinsTable, orderOf]) left
    obtain ⟨inner, hInner, hShows'⟩ := hInner right fun _ => by simp [joinsTable, orderOf]
    exact ⟨outer, inner, by rw [hOuter, hInner]; rfl, hShows, hShows'⟩
  | @onLeft plan _ _ _ shared left right =>
    obtain ⟨outer, hOuter, hShows⟩ :=
      shows_plan scans (joinsTable (orderOf (some plan))) shared (hLast plan rfl) left
    obtain ⟨inner, hInner, hShows'⟩ := hInner right fun hKind =>
      Bool.eq_false_iff.mpr fun hOther => hTwo ⟨hKind, Or.inr ⟨shared, hOther⟩⟩
    exact ⟨outer, inner, by rw [hOuter, hInner]; rfl, hShows, hShows'⟩
  | @onRight plan _ _ _ fresh kind shared right left =>
    obtain ⟨outer, hOuter, hShows⟩ :=
      shows_scan (joinsTable (orderOf (some plan))) last (hScans _ hLeftSide) fresh left
    obtain ⟨inner, hInner, hShows'⟩ :=
      shows_plan scans (joinsTable (orderOf (some plan))) shared (hLast plan rfl) right
    exact ⟨outer, inner, by rw [hOuter, kind, if_neg Bool.false_ne_true, hInner]; rfl, hShows,
      hShows'⟩

/-- The parts of a join that the search has costed: one for both of its sides, or its inputs. -/
theorem Setting.Candidate.parts {o : Oriented} (h : s.Candidate previous p o)
    (hScans : ∀ table ∈ sides o.join,
      ∃ estimate, scans.get? table = some estimate ∧ s.scanOf table = .ok estimate)
    (hLast : ∀ plan, previous = some plan → ∃ node, last = some node ∧ node.cost = plan.cost ∧
      node.cardinality = plan.cardinality) :
    if OnePart (joinsTable (orderOf previous)) o.join then
      ∃ part, partsOf scans (joinsTable (orderOf previous)) last o.join = [part]
    else ∃ outer inner : PlanNode, partsOf scans (joinsTable (orderOf previous)) last o.join =
      [outer, inner] ∧ outer.Shows o.left ∧ inner.Shows o.right := by
  split
  · rename_i hOne
    obtain ⟨estimate, hGet, -⟩ := hScans _ (left_mem_sides o.join)
    refine exists_part hOne ⟨estimate, hGet⟩ fun hKnown => ?_
    cases previous with
    | none => cases (Bool.and_eq_true_iff.mp hKnown).2
    | some plan =>
      obtain ⟨node, hNode, -⟩ := hLast plan rfl
      exact ⟨node, hNode⟩
  · rename_i hTwo
    refine (h.inputs fun hKind hLeft => ?_).shows_parts hTwo hScans hLast
    exact Bool.eq_false_iff.mpr fun hRight => hTwo ⟨hKind, Or.inr ⟨hLeft, hRight⟩⟩

end Parts

-- ---------------------------------------------------------------------------
-- Whole trees
-- ---------------------------------------------------------------------------

namespace Planner

variable {planner : Planner} {predicates : List Predicate} {visit : Visit} {catalog : Catalog}
  {stats : Snapshot} {selectivities : Option Selectivities} {explained : Bool}
  {found : List Predicate}

/-- The tree of an order, in which the parts of every join account for its cost. -/
structure AccountedTree (planner : Planner) (s : Setting) (plans : PlanTable)
    (found : List Predicate) (e : Explanation) : Prop where
  /-- A join of two parts costs what it costs to join them, the first one being the outer one. -/
  cost : ∀ root, e.root? = some root → ∀ p cost card outer inner,
    PlanNode.join p cost card [outer, inner] ∈ root.preorder →
    joinCost p outer.cardinality inner.cardinality outer.cost inner.cost = .ok cost
  /-- A step is a join as the search has oriented it, after the plan of the joins before it. It
  has one part, if both of its sides are read from that; else its parts show its inputs. -/
  step : ∀ i (hi : i < found.length), ∃ p ∈ planner.joins, ∃ previous o kept children,
    previous = (if i = 0 then none
      else plans.get? (JoinSet.ofList (planner.given (found.take i)))) ∧
    s.Candidate previous p o ∧ o.join = found[i] ∧ s.complete previous o = .ok kept ∧
    e.steps[i]? = some (.join found[i] kept.cost kept.cardinality children) ∧
    if OnePart (joinsTable (found.take i)) found[i] then ∃ part, children = [part]
    else ∃ outer inner : PlanNode, children = [outer, inner] ∧ outer.Shows o.left ∧
      inner.Shows o.right

section Covered

variable {s : Setting} {plans : PlanTable} {order : List Predicate} {plan : Plan}
  {scans : ScanEstimates} {estimates : List Estimate} {placed : Placement}
  {read : List (Option String)}

/-- Above the first join stands the one before, with the estimates of the plan so far. -/
theorem exists_last_of_covers (hEstimates : planner.stepEstimates plans found = .ok estimates)
    (hCovers : Covers scans (found.zip estimates) placed read) {i : Nat} (hi : i < found.length)
    {before : Plan} (hBefore : (if i = 0 then none
      else plans.get? (JoinSet.ofList (planner.given (found.take i)))) = some before) :
    ∃ node, (placed.steps.take i).getLast? = some node ∧ node.cost = before.cost ∧
      node.cardinality = before.cardinality := by
  cases i with
  | zero => cases hBefore
  | succ k =>
    rw [if_neg (Nat.succ_ne_zero k)] at hBefore
    obtain ⟨kept, hKept, hEstimate⟩ :=
      exists_kept_of_stepEstimates hEstimates (Nat.lt_of_succ_lt hi)
    obtain rfl := Option.some.inj (hBefore.symm.trans hKept)
    have hZip : (found.zip estimates)[k]? = some (found[k], before.cost, before.cardinality) :=
      List.getElem?_zip_eq_some.mpr ⟨List.getElem?_eq_getElem _, hEstimate⟩
    obtain ⟨children, hNode, -⟩ := hCovers.step k _ _ _ hZip
    refine ⟨.join found[k] before.cost before.cardinality children, ?_, rfl, rfl⟩
    rw [List.getLast?_take, if_neg (Nat.succ_ne_zero k), Nat.add_sub_cancel, hNode, Option.some_or]

/-- A step of a tree is a candidate of the search, and shows what that reads. -/
theorem exists_accounted_step (hFor : planner.IsFor predicates) (hGrown : Grown s plans order plan)
    (hPerm : order.Perm planner.joins) (hNodes : ∀ p ∈ planner.joins, JoinGraph.HasNodes p)
    (hScans : scansOf s planner.joins = .ok scans)
    (hEstimates : planner.stepEstimates plans plan.order = .ok estimates)
    (hLength : plan.order.length = estimates.length)
    (hCovers : Covers scans (plan.order.zip estimates) placed read) {i : Nat}
    (hi : i < plan.order.length) :
    ∃ p ∈ planner.joins, ∃ previous o kept children,
      previous = (if i = 0 then none
        else plans.get? (JoinSet.ofList (planner.given (plan.order.take i)))) ∧
      s.Candidate previous p o ∧ o.join = plan.order[i] ∧ s.complete previous o = .ok kept ∧
      placed.steps[i]? = some (.join plan.order[i] kept.cost kept.cardinality children) ∧
      if OnePart (joinsTable (plan.order.take i)) plan.order[i] then ∃ part, children = [part]
      else ∃ outer inner : PlanNode, children = [outer, inner] ∧ outer.Shows o.left ∧
        inner.Shows o.right := by
  have hSame := Setting.sameJoins_of_replay hGrown.replay
  have hGiven : ∀ k, planner.given (plan.order.take k) = order.take k := fun k =>
    hFor.given_eq (List.forall₂_take k hSame) fun p hp =>
      hPerm.mem_iff.mp (List.mem_of_mem_take hp)
  have hi' : i < order.length := hGrown.length_eq ▸ hi
  obtain ⟨previous, o, kept, hNext, hComplete, hPrevious, hKept, hBefore, hJoin⟩ :=
    hGrown.exists_step hi'
  rw [← hGiven] at hPrevious hKept
  rw [List.getElem?_eq_getElem hi, Option.some.injEq] at hJoin
  -- the node of the join, with the parts that the tree has given to it
  obtain ⟨kept', hKept', hEstimate⟩ := exists_kept_of_stepEstimates hEstimates hi
  obtain rfl := Option.some.inj (hKept.symm.trans hKept')
  have hZip : (plan.order.zip estimates)[i]? = some (plan.order[i], kept.cost, kept.cardinality) :=
    List.getElem?_zip_eq_some.mpr ⟨List.getElem?_eq_getElem hi, hEstimate⟩
  obtain ⟨children, hNode, -, hChildren⟩ := hCovers.step i _ _ _ hZip
  have hExecutes : Executes plan.order planner.joins := ⟨order, hPerm, hSame⟩
  have hAliased : ∀ q ∈ plan.order.take i, JoinGraph.HasNodes q := fun q hq =>
    hasNodes_of_executes hExecutes hNodes q (List.mem_of_mem_take hq)
  rw [List.map_take, List.map_fst_zip (Nat.le_of_eq hLength), readBy_eq_joinsTable hAliased]
    at hChildren
  refine ⟨order[i], hPerm.mem_iff.mp (List.getElem_mem hi'), previous, o, kept, children,
    hPrevious, hNext, hJoin.symm, hComplete, hNode, ?_⟩
  rw [hChildren, ← hBefore, hJoin]
  refine hNext.parts (fun table hSide => ?_) fun before hSome =>
    exists_last_of_covers hEstimates hCovers hi (hPrevious.symm.trans hSome)
  exact exists_scan_of_mem_sides hExecutes hNodes hScans (List.getElem_mem hi) (hJoin ▸ hSide)

/-- All joins of the tree are steps. -/
theorem mem_steps_of_covers {done : List (Predicate × Estimate)}
    (hCovers : Covers scans done placed read) {root : PlanNode}
    (hRoot : placed.steps.getLast? = some root) {p : Predicate} {cost : Cost} {card : Cardinality}
    {children : List PlanNode} (h : PlanNode.join p cost card children ∈ root.preorder) :
    PlanNode.join p cost card children ∈ placed.steps := by
  have hNodes := hCovers.nodes
  rw [hRoot, Option.toList_some, PlanNode.preorders, PlanNode.preorders, List.append_nil]
    at hNodes
  rcases List.mem_append.mp (hNodes.mem_iff.mp h) with hRest | hSubplan
  · rcases List.mem_append.mp hRest with hStep | hScan
    · exact hStep
    · obtain ⟨table, -, hNode⟩ := List.mem_filterMap.mp hScan
      obtain ⟨estimate, -, hEq⟩ := Option.map_eq_some_iff.mp hNode
      cases hEq
  · cases List.eq_of_mem_replicate hSubplan

/-- The tree that a run has made possible accounts for its costs. -/
theorem accountedTree_of_covers (hFor : planner.IsFor predicates)
    (hGrown : Grown s plans order plan) (hPerm : order.Perm planner.joins)
    (hNodes : ∀ p ∈ planner.joins, JoinGraph.HasNodes p)
    (hScans : scansOf s planner.joins = .ok scans)
    (hEstimates : planner.stepEstimates plans plan.order = .ok estimates)
    (hLength : plan.order.length = estimates.length)
    (hCovers : Covers scans (plan.order.zip estimates) placed read) :
    AccountedTree planner s plans plan.order ⟨plan.order, placed.steps⟩ := by
  have hSteps : ∀ i (hi : i < plan.order.length), _ := fun i hi =>
    exists_accounted_step hFor hGrown hPerm hNodes hScans hEstimates hLength hCovers hi
  refine ⟨fun root hRoot p cost card outer inner hMem => ?_, hSteps⟩
  obtain ⟨i, hi, hNode⟩ := List.mem_iff_getElem.mp (mem_steps_of_covers hCovers hRoot hMem)
  have hi' : i < plan.order.length := by
    rw [hCovers.length, List.length_zip] at hi
    exact Nat.lt_of_lt_of_le hi (Nat.min_le_left _ _)
  obtain ⟨_, -, _, o, kept, children, -, hNext, hJoin, hComplete, hStep, hParts⟩ := hSteps i hi'
  rw [List.getElem?_eq_getElem hi, hNode] at hStep
  injection hStep with hStep
  injection hStep with hPredicate hCost hCard hChildren
  obtain ⟨_, -, hKept⟩ := Setting.complete_eq_ok_iff.mp hComplete
  subst hChildren
  split at hParts
  · obtain ⟨part, hOne⟩ := hParts
    cases hOne
  · obtain ⟨_, _, hTwo, hOuter, hInner⟩ := hParts
    cases hTwo
    rw [hPredicate, hCost, ← hJoin, hKept, hOuter.cost, hOuter.cardinality, hInner.cost,
      hInner.cardinality]
    exact hNext.joinCost_eq

end Covered

-- ---------------------------------------------------------------------------
-- Returned orders
-- ---------------------------------------------------------------------------

/-- A run that returns an order can be explained, and the tree accounts for its costs. -/
theorem order_accounted (hFor : planner.IsFor predicates) (hVisit : ∀ l, (visit l).Perm l)
    (hOrder : (planner.order visit catalog stats selectivities explained).2.outcome = .ok found) :
    ∃ plans e, (planner.order visit catalog stats selectivities explained).1.last.plans =
        some plans ∧
      (planner.order visit catalog stats selectivities explained).1.explain = .ok e ∧
      AccountedTree planner (planner.setting catalog stats selectivities) plans found e := by
  rcases order_cases hOrder with ⟨hJoins, rfl, hPlans⟩ | ⟨hJoins, plans, plan, hFind, hPlans, hPlan,
    rfl⟩
  · -- without joins there is no tree
    refine ⟨.empty, ⟨[], []⟩, hPlans, explain_order.trans (explain_of_nil hJoins),
      ⟨fun root hRoot => ?_, fun i hi => ?_⟩⟩
    · cases hRoot
    · cases hi
  · have hSearched := searched_of_findPlans hFor hVisit hFind
    obtain ⟨scans, hScans⟩ := exists_scansOf hSearched hVisit
    obtain ⟨estimates, placed, read, hEstimates, hLength, hExplain, hCovers⟩ :=
      exists_explain hFor hVisit hJoins hFind hPlan hScans
    have hListed : plans.get? ⟨planner.joins⟩ = some plan :=
      (plans.get?_ofList fun p => Iff.rfl).symm.trans hPlan
    obtain ⟨order, hPerm, hGrown⟩ :=
      hSearched.exists_grown hFor.distinct.nodup hVisit (within_all hJoins) hListed
    exact ⟨plans, ⟨plan.order, placed.steps⟩, hPlans, explain_order.trans hExplain,
      accountedTree_of_covers hFor hGrown hPerm
        (hasNodes_of_checkLinked (exists_of_checks (findPlans_eq_ok_iff.mp hFind).1).2) hScans
        hEstimates hLength hCovers⟩

/-- Joins of which the third to be executed reads the two before as its inner input. -/
def innerPlanJoins : List Predicate :=
  [⟨.subplan, ⟨some "C", some "id"⟩, .equal, ⟨none, none⟩⟩, sampleJoin "C" "id" "D" "v",
    sampleJoin "D" "id" "A" "id", sampleJoin "C" "v" "D" "id"]

/-- Their order. -/
def innerPlanOrder : List Predicate :=
  [⟨.subplan, ⟨some "C", some "id"⟩, .equal, ⟨none, none⟩⟩, sampleJoin "C" "id" "D" "v",
    sampleJoin "A" "id" "D" "id", sampleJoin "C" "v" "D" "id"]

/-- The statement at these joins: one with a subplan, two of two tables, and a parallel one. -/
theorem order_accounted_innerPlan :
    ((samplePlanner innerPlanJoins).order List.reverse sampleCatalog sampleStats none
      true).2.outcome = .ok innerPlanOrder ∧
      ∃ plans e, ((samplePlanner innerPlanJoins).order List.reverse sampleCatalog sampleStats none
          true).1.last.plans = some plans ∧
        ((samplePlanner innerPlanJoins).order List.reverse sampleCatalog sampleStats none
          true).1.explain = .ok e ∧
        AccountedTree (samplePlanner innerPlanJoins)
          ((samplePlanner innerPlanJoins).setting sampleCatalog sampleStats none) plans
          innerPlanOrder e := by
  have hOrder := eq_ok_of_toOption (x := ((samplePlanner innerPlanJoins).order List.reverse
    sampleCatalog sampleStats none true).2.outcome) (a := innerPlanOrder) (by decide +kernel)
  exact ⟨hOrder,
    order_accounted (isFor_samplePlanner innerPlanJoins) (fun l => l.reverse_perm) hOrder⟩

end Planner

end JoinPlanner
