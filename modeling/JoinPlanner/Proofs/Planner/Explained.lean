import JoinPlanner.Proofs.PlanTree
import JoinPlanner.Proofs.Planner.Run
import JoinPlanner.Proofs.Search.Replay

/-!
# JoinPlanner — every order can be explained

The tree of an order needs the estimates after each of its joins and the scan of each of its
tables. A run that returns an order has kept both: the beginnings of the order have plans,
and the scans of all tables have been estimated.

* `ensures_ofOrder`       — a tree is built, if all scans have estimates.
* `ensures_stepEstimates` — the estimates are looked up, if all beginnings have plans.
* `exists_scansOf`        — a search that ends has scanned all tables.
* `exists_explain`        — the order of a run can be explained.
-/

namespace JoinPlanner

open Outcome PlannerError

-- ---------------------------------------------------------------------------
-- Trees
-- ---------------------------------------------------------------------------

section Trees

variable {E : PlannerError → Prop} {scans : ScanEstimates}

/-- A table that no join holds yet needs a scan. -/
theorem Placement.ensures_place (placed : Placement) (step : Predicate × Estimate)
    (hScans : ∀ table ∈ sides step.1,
      (∃ estimate, scans.get? table = some estimate) ∨ E (.noScanEstimate table)) :
    (place scans placed step).Ensures E fun _ => True := by
  refine ensures_bind (P := fun _ => True) ?_ fun parts _ _ => .ok trivial
  refine ensures_foldlM (M := fun _ _ => True) trivial fun done table rest parts hSplit _ => ?_
  rw [addPart]
  split
  · split
    · exact .ok trivial
    · exact .ok trivial
  · rcases hScans table (by simp [hSplit]) with ⟨estimate, hScan⟩ | hAllowed
    · rw [hScan]
      exact .ok trivial
    · split
      · exact .ok trivial
      · exact .error hAllowed

/-- A tree is built from as many estimates as joins, if all scans have estimates. -/
theorem Explanation.ensures_ofOrder {order : List Predicate} {estimates : List Estimate}
    (hLength : order.length = estimates.length ∨ E .estimatesMissing)
    (hScans : ∀ p ∈ order, ∀ table ∈ Placement.sides p,
      (∃ estimate, scans.get? table = some estimate) ∨ E (.noScanEstimate table)) :
    (ofOrder order estimates scans).Ensures E fun _ => True := by
  rw [ofOrder]
  split
  · rename_i hNe
    exact .error (hLength.resolve_left hNe)
  · refine ensures_bind (P := fun _ => True) ?_ fun placed _ _ => .ok trivial
    refine ensures_foldlM (M := fun _ _ => True) trivial fun done step rest placed hSplit _ => ?_
    have hStep : step ∈ order.zip estimates := by simp [hSplit]
    exact Placement.ensures_place placed step (hScans step.1 (List.of_mem_zip hStep).1)

end Trees

namespace Planner

-- ---------------------------------------------------------------------------
-- Estimates
-- ---------------------------------------------------------------------------

/-- The scans of all tables are looked up as they were estimated. -/
theorem exists_scan_of_scansOf {s : Setting} {joins : List Predicate} {scans : ScanEstimates}
    (h : scansOf s joins = .ok scans) {table : Option String}
    (hTable : table ∈ Predicate.tablesIn joins) :
    ∃ estimate, scans.get? table = some estimate ∧ s.scanOf table = .ok estimate := by
  have hScans := forall₂_of_mapM h
  have hEntry : ∀ i (hi : i < scans.length) (hi' : i < (Predicate.tablesIn joins).length),
      scans[i].1 = (Predicate.tablesIn joins)[i] ∧ s.scanOf scans[i].1 = .ok scans[i].2 := by
    intro i hi hi'
    obtain ⟨estimate, hScan, hPair⟩ := bind_eq_ok.mp (hScans.get hi' hi)
    have hEntry : scans[i] = ((Predicate.tablesIn joins)[i], estimate) := (pure_eq_ok.mp hPair).symm
    rw [hEntry]
    exact ⟨rfl, hScan⟩
  obtain ⟨i, hi', rfl⟩ := List.mem_iff_getElem.mp hTable
  have hi : i < scans.length := hScans.length_eq ▸ hi'
  obtain ⟨estimate, hGet⟩ :=
    Association.exists_get?_of_mem (List.getElem_mem hi) (beq_iff_eq.mpr (hEntry i hi hi').1)
  obtain ⟨key, hMem, hKey⟩ := Association.exists_mem_of_get? hGet
  obtain ⟨k, hk, hPair⟩ := List.mem_iff_getElem.mp hMem
  have hScan := (hEntry k hk (hScans.length_eq.symm ▸ hk)).2
  rw [hPair] at hScan
  exact ⟨estimate, hGet, eq_of_beq hKey ▸ hScan⟩

/-- The estimates are looked up, if all beginnings of the order have plans. -/
theorem ensures_stepEstimates {planner : Planner} {plans : PlanTable} {order : List Predicate}
    (h : ∀ k, 0 < k → k ≤ order.length → ∃ joins kept,
      (order.take k).mapM planner.representative = .ok joins ∧
        plans.get? (JoinSet.ofList joins) = some kept) :
    (planner.stepEstimates plans order).Ensures Never
      fun estimates => order.length = estimates.length := by
  refine Ensures.mono (ensures_mapM fun size hSize => ?_) fun estimates hEstimates _ => ?_
  · obtain ⟨hLow, hHigh⟩ := List.mem_range'_1.mp hSize
    obtain ⟨joins, kept, hJoins, hKept⟩ := h size hLow (by omega)
    have hOk : planner.setEstimate plans (order.take size) = .ok (kept.cost, kept.cardinality) :=
      bind_eq_ok.mpr ⟨joins, hJoins, by simp only [hKept]; rfl⟩
    rw [hOk]
    exact .ok trivial
  · rw [← (forall₂_of_mapM hEstimates).length_eq, List.length_range']

-- ---------------------------------------------------------------------------
-- Scans
-- ---------------------------------------------------------------------------

/-- An order joins aliases if the joins do that it executes. -/
theorem hasNodes_of_executes {order joins : List Predicate} (hExecutes : Executes order joins)
    (hNodes : ∀ p ∈ joins, JoinGraph.HasNodes p) : ∀ q ∈ order, JoinGraph.HasNodes q := by
  intro q hq
  obtain ⟨p, hp, hSame⟩ := exists_sameJoin_of_mem hExecutes hq
  exact (hNodes p hp).of_sameJoin hSame

/-- Both sides of each join of an order are scanned with the joins that it executes. -/
theorem exists_scan_of_mem_sides {s : Setting} {order joins : List Predicate}
    {scans : ScanEstimates} (hExecutes : Executes order joins)
    (hNodes : ∀ p ∈ joins, JoinGraph.HasNodes p) (hScans : scansOf s joins = .ok scans)
    {q : Predicate} (hq : q ∈ order) {table : Option String} (hSide : table ∈ Placement.sides q) :
    ∃ estimate, scans.get? table = some estimate ∧ s.scanOf table = .ok estimate := by
  have hTable :=
    Placement.mem_tables_of_mem_sides (hasNodes_of_executes hExecutes hNodes q hq) hSide
  obtain ⟨p, hp, hSame⟩ := exists_sameJoin_of_mem hExecutes hq
  exact exists_scan_of_scansOf hScans
    (Predicate.mem_tablesIn.mpr ⟨p, hp, hSame.mem_tables_iff.mp hTable⟩)

/-- The set of a single join was planned from the scans of its tables. -/
theorem exists_scanOf_of_searched {s : Setting} {visit : Visit} {joins : List Predicate}
    {plans : PlanTable} (hSearched : Searched s visit joins joins.length plans)
    (hVisit : ∀ l, (visit l).Perm l) {p : Predicate} (hp : p ∈ joins) {table : Option String}
    (hTable : table ∈ p.tables) : ∃ estimate, s.scanOf table = .ok estimate := by
  have hWithin : Within joins joins.length [p] :=
    ⟨List.singleton_sublist.mpr hp, List.cons_ne_nil _ _, List.length_pos_of_mem hp⟩
  have hFirst : Setting.previousOf? plans.get? ⟨[p]⟩ p = some none := by
    rw [Setting.previousOf?_eq (List.nodup_singleton p), if_pos (List.erase_cons_head p [])]
  obtain ⟨o, hLast⟩ := (hSearched.bestOf hWithin).estimated p
    ((hVisit [p]).mem_iff.mpr (List.mem_singleton_self p)) none hFirst
    fun plan hPlan => by cases hPlan
  obtain ⟨l, r, hInputs, -⟩ := hLast.next
  cases hInputs with
  | first left right =>
    obtain ⟨scanned, hLeft, -⟩ := bind_eq_ok.mp left
    obtain ⟨kind, leftSide, operator, rightSide⟩ := p
    cases kind with
    | subplan =>
      obtain rfl := List.mem_singleton.mp hTable
      exact ⟨scanned, hLeft⟩
    | table =>
      obtain ⟨scannedRight, hRight, -⟩ := bind_eq_ok.mp right
      have hSide : table = leftSide.table ∨ table = rightSide.table := by
        simpa using (List.mem_filter.mp hTable).1
      rcases hSide with rfl | rfl
      · exact ⟨scanned, hLeft⟩
      · exact ⟨scannedRight, hRight⟩

/-- A search that ends has scanned all tables. -/
theorem exists_scansOf {s : Setting} {visit : Visit} {joins : List Predicate} {plans : PlanTable}
    (hSearched : Searched s visit joins joins.length plans) (hVisit : ∀ l, (visit l).Perm l) :
    ∃ scans, scansOf s joins = .ok scans := by
  have hScans : (scansOf s joins).Ensures Never fun _ => True := by
    refine ensures_mapM fun table hTable => ?_
    obtain ⟨p, hp, hMem⟩ := Predicate.mem_tablesIn.mp hTable
    obtain ⟨estimate, hScan⟩ := exists_scanOf_of_searched hSearched hVisit hp hMem
    rw [hScan]
    exact .ok trivial
  obtain ⟨scans, hOk, -⟩ := hScans.exists_eq_ok
  exact ⟨scans, hOk⟩

-- ---------------------------------------------------------------------------
-- Runs
-- ---------------------------------------------------------------------------

variable {planner : Planner} {predicates : List Predicate} {visit : Visit} {catalog : Catalog}
  {stats : Snapshot} {selectivities : Option Selectivities}

/-- A run that has got as far as the scans has left all that an explanation needs. -/
theorem exists_explain (hFor : planner.IsFor predicates) (hVisit : ∀ l, (visit l).Perm l)
    (hJoins : planner.joins ≠ []) {plans : PlanTable} {plan : Plan} {scans : ScanEstimates}
    (hFind : (planner.findPlans visit catalog stats selectivities).outcome = .ok plans)
    (hPlan : plans.get? (JoinSet.ofList planner.joins) = some plan)
    (hScans : scansOf (planner.setting catalog stats selectivities) planner.joins = .ok scans) :
    ∃ estimates placed read, planner.stepEstimates plans plan.order = .ok estimates ∧
      plan.order.length = estimates.length ∧
      explain { planner with last := (planner.run visit catalog stats selectivities).1 } =
        .ok ⟨plan.order, placed.steps⟩ ∧
      Placement.Covers scans (plan.order.zip estimates) placed read := by
  have hSearched := searched_of_findPlans hFor hVisit hFind
  have hNodes := hasNodes_of_checkLinked (exists_of_checks (findPlans_eq_ok_iff.mp hFind).1).2
  have hListed : plans.get? ⟨planner.joins⟩ = some plan := by
    rw [← plans.get?_ofList fun p => Iff.rfl]
    exact hPlan
  obtain ⟨order, hPerm, hGrown⟩ :=
    hSearched.exists_grown hFor.distinct.nodup hVisit (within_all hJoins) hListed
  have hSame := Setting.sameJoins_of_replay hGrown.replay
  have hMem : ∀ k, ∀ p ∈ order.take k, p ∈ planner.joins :=
    fun k p hp => hPerm.mem_iff.mp (List.mem_of_mem_take hp)
  have hEstimates : (planner.stepEstimates plans plan.order).Ensures Never
      fun estimates => plan.order.length = estimates.length := by
    refine ensures_stepEstimates fun k hk hLe => ?_
    obtain ⟨kept, hKept, -⟩ := hGrown.exists_take hk (hGrown.length_eq ▸ hLe)
    exact ⟨_, kept, hFor.mapM_representative (List.forall₂_take k hSame) (hMem k), hKept.kept⟩
  have hPlanned := hSearched.planFor hFor.distinct.nodup hVisit (within_all hJoins) hListed
  have hSides : ∀ q ∈ plan.order, ∀ table ∈ Placement.sides q,
      ∃ estimate, scans.get? table = some estimate := by
    intro q hq table hSide
    obtain ⟨estimate, hEstimate, -⟩ :=
      exists_scan_of_mem_sides hPlanned.executes hNodes hScans hq hSide
    exact ⟨estimate, hEstimate⟩
  obtain ⟨estimates, hOk, hLength⟩ := hEstimates.exists_eq_ok
  obtain ⟨e, hTree, placed, read, rfl, hCovers⟩ :=
    (Explanation.ensures_covers hLength hPlanned.leftDeep hSides).exists_eq_ok
  refine ⟨estimates, placed, read, hOk, hLength, ?_, hCovers⟩
  rw [last_of_ok hJoins hFind hPlan hScans]
  exact bind_eq_ok.mpr ⟨estimates, hOk, hTree⟩

end Planner

end JoinPlanner
