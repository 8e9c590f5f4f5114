import JoinPlanner.Proofs.Planner.SecondRun
import JoinPlanner.Proofs.Search.Renaming

/-!
# JoinPlanner — the side of a subquery

A join with a subplan may be given an alias and a column on the side of its subquery. They are
not resolved to plan the join itself, but they are looked up like those of a table when another
join extends a plan that it is part of. So an unknown alias there stops a run, and the name of a
key changes how many tuples are expected. Apart from that the names are not looked at.

* `order_subquery_resolved` — two runs for predicates that differ in these names only.
* `run_map`                 — the run for other subqueries whose sides are keys or not alike.
* `drawnBack`               — its sequences of trials are those of the given joins.
* `order_other_subqueries`  — the outcomes are the same, up to the subqueries.
-/

namespace JoinPlanner

open Outcome

variable {other : Predicate → Predicate}

-- ---------------------------------------------------------------------------
-- Predicates
-- ---------------------------------------------------------------------------

/-- Joins that are told apart under other names are told apart up to orientation. -/
theorem sameJoin_map_iff (hSame : ∀ p : Predicate, p.SameCondition (other p)) {p q : Predicate}
    (hInjective : other p = other q → p = q) : (other p).SameJoin (other q) ↔ p.SameJoin q := by
  cases hp : p.isSubplan with
  | false =>
    rw [(hSame p).eq_of_table hp]
    cases hq : q.isSubplan with
    | false => rw [(hSame q).eq_of_table hq]
    | true =>
      constructor
      · intro h
        cases hp.symm.trans (h.isSubplan_eq.trans ((hSame q).isSubplan_eq.trans hq))
      · intro h
        cases hp.symm.trans (h.isSubplan_eq.trans hq)
  | true =>
    cases hq : q.isSubplan with
    | false =>
      constructor
      · intro h
        cases ((hSame p).isSubplan_eq.trans hp).symm.trans
          (h.isSubplan_eq.trans ((hSame q).isSubplan_eq.trans hq))
      · intro h
        cases hp.symm.trans (h.isSubplan_eq.trans hq)
    | true =>
      rw [Predicate.SameJoin, Predicate.SameJoin, Predicate.flipped_of_subplan hq,
        Predicate.flipped_of_subplan ((hSame q).isSubplan_eq.trans hq), or_self, or_self]
      exact ⟨hInjective, congrArg other⟩

theorem tablesIn_map (hSame : ∀ p : Predicate, p.SameCondition (other p))
    (joins : List Predicate) :
    Predicate.tablesIn (joins.map other) = Predicate.tablesIn joins := by
  rw [Predicate.tablesIn, Predicate.tablesIn, List.flatMap_map]
  simp only [(hSame _).tables_eq]

/-- A subquery is no node of the join graph. -/
theorem linkedGroups_map (hSame : ∀ p : Predicate, p.SameCondition (other p))
    (joins : List Predicate) : linkedGroups (joins.map other) = linkedGroups joins := by
  have hAdd : ∀ (graph : JoinGraph) p, graph.addPredicate (other p) = graph.addPredicate p := by
    intro graph p
    cases hKind : p.isSubplan with
    | false => rw [(hSame p).eq_of_table hKind]
    | true =>
      rw [JoinGraph.addPredicate, JoinGraph.addPredicate, (hSame p).kind, (hSame p).left,
        show p.kind = .subplan from eq_of_beq hKind]
      cases p.left.table <;> rfl
  rw [linkedGroups, linkedGroups, JoinGraph.ofPredicates, JoinGraph.ofPredicates,
    List.foldlM_map]
  simp only [hAdd]

namespace Planner

variable {planner planner' : Planner} {predicates : List Predicate} {visit visit' : Visit}
  {catalog : Catalog} {stats : Snapshot} {selectivities : Option Selectivities}
  {explained : Bool}

-- ---------------------------------------------------------------------------
-- A name that is resolved
-- ---------------------------------------------------------------------------

/-- A join with a subquery without names. -/
def plainSubquery : Predicate := ⟨.subplan, ⟨some "A", some "v"⟩, .equal, ⟨none, none⟩⟩

/-- The same with an alias that the sample does not have. -/
def strangeSubquery : Predicate := { plainSubquery with right := ⟨some "X", some "id"⟩ }

/-- The subquery and another join of its table. -/
def subqueryJoins (subquery : Predicate) : List Predicate := [subquery, sampleJoin "A" "v" "C" "v"]

theorem untied_plainSubquery (plans : PlanTable)
    (hPlans : ((samplePlanner (subqueryJoins plainSubquery)).order List.reverse sampleCatalog
      sampleStats none false).1.last.plans = some plans) (members : List Predicate)
    (hWithin : Within (samplePlanner (subqueryJoins plainSubquery)).joins
      (samplePlanner (subqueryJoins plainSubquery)).joins.length members) :
    ((samplePlanner (subqueryJoins plainSubquery)).setting sampleCatalog sampleStats none).Untied
      plans.get? ⟨members⟩ := by
  have hUntied : (((samplePlanner (subqueryJoins plainSubquery)).order List.reverse sampleCatalog
      sampleStats none false).1.last.plans.all fun plans =>
        decide (∀ members, Within (samplePlanner (subqueryJoins plainSubquery)).joins
          (samplePlanner (subqueryJoins plainSubquery)).joins.length members →
            ((samplePlanner (subqueryJoins plainSubquery)).setting sampleCatalog sampleStats
              none).Untied plans.get? ⟨members⟩)) = true := by decide +kernel
  exact of_decide_eq_true ((Option.all_eq_true _ _).mp hUntied plans hPlans) members hWithin

/-- The alias of a subquery that has been joined is looked up before another table is. -/
theorem order_subquery_resolved :
    plainSubquery.SameCondition strangeSubquery ∧
    (∃ found, ((samplePlanner (subqueryJoins plainSubquery)).order List.reverse sampleCatalog
      sampleStats none false).2.outcome = .ok found) ∧
    (∀ plans, ((samplePlanner (subqueryJoins plainSubquery)).order List.reverse sampleCatalog
      sampleStats none false).1.last.plans = some plans →
        ∀ members, Within (samplePlanner (subqueryJoins plainSubquery)).joins
          (samplePlanner (subqueryJoins plainSubquery)).joins.length members →
            ((samplePlanner (subqueryJoins plainSubquery)).setting sampleCatalog sampleStats
              none).Untied plans.get? ⟨members⟩) ∧
    ∃ e, ((samplePlanner (subqueryJoins strangeSubquery)).order List.reverse sampleCatalog
      sampleStats none false).2.outcome = .error e ∧
        e.failure.kind = .unknownTable ∧ e.failure.message = "Unknown table X" := by
  have hSame : plainSubquery.SameCondition strangeSubquery :=
    ⟨rfl, rfl, rfl, fun hTable => by cases hTable⟩
  have hTold : ((samplePlanner (subqueryJoins strangeSubquery)).order List.reverse sampleCatalog
      sampleStats none false).2.outcome.told? = some (.unknownTable, "Unknown table X") := by
    decide +kernel
  exact ⟨hSame, exists_eq_ok_of_isSome (by decide +kernel), untied_plainSubquery,
    exists_eq_error_of_told hTold⟩

-- ---------------------------------------------------------------------------
-- Runs
-- ---------------------------------------------------------------------------

section Runs

variable (hSame : ∀ p : Predicate, p.SameCondition (other p))
  (hJoins : planner'.joins = planner.joins.map other)

include hSame hJoins

theorem checkInputs_map : planner'.checkInputs catalog stats selectivities =
    planner.checkInputs catalog stats selectivities := by
  rw [checkInputs, checkInputs, hJoins, checkKnown, checkKnown, tablesIn_map hSame, checkLinked,
    checkLinked, linkedGroups_map hSame, List.isEmpty_map]

theorem setting_map (hFraction : planner'.fraction = planner.fraction) :
    planner'.setting catalog stats selectivities = planner.setting catalog stats selectivities := by
  rw [setting, setting, hFraction, hJoins, noFilters, noFilters, tablesIn_map hSame]

omit hSame in
/-- A run for other subqueries that tries them in the same sequence does the same. -/
theorem run_map (hFraction : planner'.fraction = planner.fraction)
    (h : Renaming (planner.setting catalog stats selectivities) planner.joins other)
    (hNodup : planner.joins.Nodup) (hVisit : ∀ l, (visit l).Perm l)
    (hSequence : ∀ members, (∀ p ∈ members, p ∈ planner.joins) →
      visit' (members.map other) = (visit members).map other) :
    (planner'.run visit' catalog stats selectivities).1.plans =
        (planner.run visit catalog stats selectivities).1.plans.map (PlanTable.renamed other) ∧
      (planner'.run visit' catalog stats selectivities).2.outcome =
        List.map other <$> (planner.run visit catalog stats selectivities).2.outcome := by
  have hSetting : planner'.setting catalog stats selectivities =
      planner.setting catalog stats selectivities := setting_map h.same hJoins hFraction
  by_cases hNil : planner.joins = []
  · obtain ⟨hPlans, hRun⟩ := run_of_nil hNil visit catalog stats selectivities
    obtain ⟨hPlans', hRun'⟩ :=
      run_of_nil (by rw [hJoins, hNil]; rfl) visit' catalog stats selectivities
    rw [hPlans, hPlans', hRun, hRun']
    exact ⟨rfl, rfl⟩
  · have hNil' : planner'.joins ≠ [] := by rwa [hJoins, Ne, List.map_eq_nil_iff]
    have hFind' : (planner'.findPlans visit' catalog stats selectivities).outcome =
        PlanTable.renamed other <$>
          (planner.findPlans visit catalog stats selectivities).outcome := by
      rw [outcome_findPlans, outcome_findPlans, checkInputs_map h.same hJoins, hSetting, hJoins,
        h.search_map hNodup hVisit hSequence planner.verbose planner'.verbose, map_bind]
    cases hFind : (planner.findPlans visit catalog stats selectivities).outcome with
    | error e =>
      rw [hFind] at hFind'
      obtain ⟨hPlans, hRun⟩ := run_of_error hNil hFind
      obtain ⟨hPlans', hRun'⟩ := run_of_error hNil' hFind'
      rw [hPlans, hPlans', hRun, hRun']
      exact ⟨rfl, rfl⟩
    | ok plans =>
      rw [hFind] at hFind'
      obtain ⟨hPlans, hRun⟩ := run_of_ok hNil hFind
      obtain ⟨hPlans', hRun'⟩ := run_of_ok hNil' hFind'
      have hSearched := searched_of_search hNodup hVisit (findPlans_eq_ok_iff.mp hFind).2
      have hAll : (plans.renamed other).get? (.ofList planner'.joins) =
          (plans.get? (.ofList planner.joins)).map (Plan.renamed other) := by
        have hSets : ∀ e ∈ plans.entries, ∀ q ∈ e.1.members, q ∈ planner.joins :=
          fun e he q hq => (hSearched.sets e he).sublist.subset hq
        have hMembers : ∀ q ∈ (JoinSet.mk planner.joins).members, q ∈ planner.joins :=
          fun q hq => hq
        rw [PlanTable.get?_ofList _ fun p => Iff.rfl, PlanTable.get?_ofList _ fun p => Iff.rfl,
          hJoins]
        exact h.get?_renamed hSets hMembers
      rw [hPlans, hPlans', hRun, hRun', hAll, hSetting, hJoins, linkedGroups_map h.same, scansOf,
        scansOf, tablesIn_map h.same]
      refine ⟨rfl, ?_⟩
      cases plans.get? (.ofList planner.joins) with
      | none => cases linkedGroups planner.joins <;> rfl
      | some plan =>
        show (_ >>= fun _ => Except.ok (plan.order.map other)) = List.map other <$> (_ >>= _)
        rw [map_bind]
        rfl

end Runs

-- ---------------------------------------------------------------------------
-- Sequences of trials
-- ---------------------------------------------------------------------------

/-- The join that another one stands for. -/
def originOf (other : Predicate → Predicate) (joins : List Predicate) (q : Predicate) :
    Predicate :=
  (joins.find? fun p => other p == q).getD q

/-- The joins are tried as the others are. -/
def drawnBack (other : Predicate → Predicate) (joins : List Predicate) (visit' : Visit) : Visit :=
  fun l => if ∀ p ∈ l, p ∈ joins then (visit' (l.map other)).map (originOf other joins) else l

section Sequences

variable {joins : List Predicate}
  (hInjective : ∀ p ∈ joins, ∀ q ∈ joins, other p = other q → p = q)

include hInjective

theorem originOf_other {p : Predicate} (hp : p ∈ joins) : originOf other joins (other p) = p := by
  rw [originOf]
  cases hFind : joins.find? fun q => other q == other p with
  | none => exact absurd (beq_self_eq_true _) (List.find?_eq_none.mp hFind p hp)
  | some q =>
    have hSame : (other q == other p) = true :=
      List.find?_some (p := fun q => other q == other p) hFind
    exact hInjective q (List.mem_of_find?_eq_some hFind) p hp (eq_of_beq hSame)

theorem drawnBack_perm (hVisit' : ∀ l, (visit' l).Perm l) (l : List Predicate) :
    (drawnBack other joins visit' l).Perm l := by
  rw [drawnBack]
  split
  · rename_i hJoins
    refine ((hVisit' _).map _).trans (.of_eq ?_)
    rw [List.map_map]
    exact (List.map_congr_left fun p hp => originOf_other hInjective (hJoins p hp)).trans
      (List.map_id l)
  · exact .refl l

theorem drawnBack_map (hVisit' : ∀ l, (visit' l).Perm l) {members : List Predicate}
    (hMembers : ∀ p ∈ members, p ∈ joins) :
    visit' (members.map other) = (drawnBack other joins visit' members).map other := by
  rw [drawnBack, if_pos hMembers, List.map_map]
  refine (List.map_id _).symm.trans (List.map_congr_left fun q hq => ?_)
  obtain ⟨p, hp, rfl⟩ := List.mem_map.mp ((hVisit' _).mem_iff.mp hq)
  exact (congrArg other (originOf_other hInjective (hMembers p hp))).symm

end Sequences

-- ---------------------------------------------------------------------------
-- Other subqueries
-- ---------------------------------------------------------------------------

section Subqueries

variable (hSame : ∀ p : Predicate, p.SameCondition (other p))
  (hInjective : ∀ p ∈ predicates, ∀ q ∈ predicates, other p = other q → p = q)
  (hFor : planner.IsFor predicates) (hFor' : planner'.IsFor (predicates.map other))

include hSame hInjective hFor hFor'

theorem joins_map : planner'.joins = planner.joins.map other := by
  rw [joins, joins, hFor, hFor', UniqueJoins.joins_ofList_map fun p hp q hq =>
    sameJoin_map_iff hSame (hInjective p hp q hq)]

/-- The planners correspond, whatever the names of the subqueries. -/
theorem corresponding_map (hFraction : planner'.fraction = planner.fraction) :
    Corresponding planner planner' other := by
  refine ⟨.of_eq (joins_map hSame hInjective hFor hFor'), hFraction,
    fun p _ table => by rw [(hSame p).tables_eq], fun p _ hNodes => ?_⟩
  refine ⟨(hSame p).left ▸ hNodes.1, fun hKind => ?_⟩
  have hTable : p.kind = .table := (hSame p).kind.symm.trans hKind
  rw [(hSame p).eq_of_table (by rw [Predicate.isSubplan, hTable]; rfl)]
  exact hNodes.2 hTable

omit hFor' in
/-- What is known of the sides of tables does not change. -/
theorem renaming_of_keys
    (hKeys : ∀ p ∈ predicates, p.isSubplan = true →
      (planner.setting catalog stats selectivities).isKey (other p).right =
        (planner.setting catalog stats selectivities).isKey p.right) :
    Renaming (planner.setting catalog stats selectivities) planner.joins other := by
  have hSubset := hFor.collects.subset
  refine ⟨hSame, fun p hp q hq => hInjective p (hSubset p hp) q (hSubset q hq), fun p hp => ?_⟩
  cases hKind : p.isSubplan with
  | false => rw [(hSame p).eq_of_table hKind]
  | true => exact hKeys p (hSubset p hp) hKind

/--
If the subqueries of predicates are exchanged for others whose sides are keys or not alike, a
run does what a run for the given predicates does that tries the joins in the same sequence: it
fails with the same error or finds the same plans. If no set has two cheapest joins, it does so in
whatever sequence, unless the tuples of a join are uncounted.
-/
theorem order_other_subqueries (hFraction : planner'.fraction = planner.fraction)
    (hKeys : ∀ p ∈ predicates, p.isSubplan = true →
      (planner.setting catalog stats selectivities).isKey (other p).right =
        (planner.setting catalog stats selectivities).isKey p.right)
    (hVisit' : ∀ l, (visit' l).Perm l) (explained' : Bool) :
    (∃ visit : Visit, (∀ l, (visit l).Perm l) ∧
      (planner'.order visit' catalog stats selectivities explained').1.last.plans =
        (planner.order visit catalog stats selectivities explained).1.last.plans.map
          (PlanTable.renamed other) ∧
      (planner'.order visit' catalog stats selectivities explained').2.outcome =
        List.map other <$>
          (planner.order visit catalog stats selectivities explained).2.outcome) ∧
    ∀ visit found plans, (∀ l, (visit l).Perm l) →
      (planner.order visit catalog stats selectivities explained).2.outcome = .ok found →
      (planner.order visit catalog stats selectivities explained).1.last.plans = some plans →
      (∀ members, Within planner.joins planner.joins.length members →
        (planner.setting catalog stats selectivities).Untied plans.get? ⟨members⟩) →
      (planner'.order visit' catalog stats selectivities explained').2.outcome.Ensures
        (fun e => Uncounted (planner.setting catalog stats selectivities) planner.joins plans e ∧
          ¬ planner.Returns catalog stats selectivities explained)
        fun found' => found' = found.map other ∧ ∃ plans',
          (planner'.order visit' catalog stats selectivities explained').1.last.plans =
            some plans' ∧
          SamePlans planner.joins other plans plans' := by
  have hJoins := joins_map hSame hInjective hFor hFor'
  have hRenaming := renaming_of_keys hSame hInjective hFor hKeys
  constructor
  · have hPerm := drawnBack_perm hRenaming.injective hVisit'
    refine ⟨drawnBack other planner.joins visit', hPerm, ?_⟩
    rw [order_last_plans, order_last_plans, order_eq_run hFor' hVisit', order_eq_run hFor hPerm]
    exact run_map hJoins hFraction hRenaming hFor.distinct.nodup hPerm fun members hMembers =>
      drawnBack_map hRenaming.injective hVisit' hMembers
  · intro visit found plans hVisit hOrder hPlans hUntied
    have hCorresponding := corresponding_map hSame hInjective hFor hFor' hFraction
    refine (order_repeats hFor hFor' hCorresponding hVisit hVisit' hOrder hPlans
      (fun members hWithin => (hUntied members hWithin).comparable)
      (fun members hWithin => (hUntied members hWithin).sameCards) fun hChecks => ?_).mono ?_
    · exact follows_of_sameCondition (hCorresponding.sameReadings catalog stats selectivities)
        hSame hRenaming.injective (fun p hp hKind => exists_isKey_of_checks hChecks hp hKind)
        hRenaming.keys
    · rintro found' - ⟨plans', hPlans', hRepeats⟩
      obtain ⟨hSamePlans, hFound⟩ := hRepeats.untied hSame hUntied
      exact ⟨hFound, plans', hPlans', hSamePlans⟩

end Subqueries

/-- All subqueries are given the names of a column that is no key. -/
def nameSubquery (p : Predicate) : Predicate :=
  if p.isSubplan then { p with right := ⟨some "B", some "v"⟩ } else p

theorem sameCondition_nameSubquery (p : Predicate) : p.SameCondition (nameSubquery p) := by
  rw [nameSubquery]
  split
  · rename_i hKind
    exact ⟨rfl, rfl, rfl, fun hTable => by cases hKind.symm.trans hTable⟩
  · exact .refl p

/-- The statement at a subquery that is given a name. -/
theorem order_other_subqueries_named :
    ∃ found,
      ((samplePlanner (subqueryJoins plainSubquery)).order List.reverse sampleCatalog sampleStats
        none false).2.outcome = .ok found ∧
      ((samplePlanner ((subqueryJoins plainSubquery).map nameSubquery)).order id sampleCatalog
        sampleStats none true).2.outcome = .ok (found.map nameSubquery) := by
  obtain ⟨found, hOrder⟩ := exists_eq_ok_of_isSome
    (x := ((samplePlanner (subqueryJoins plainSubquery)).order List.reverse sampleCatalog
      sampleStats none false).2.outcome) (by decide +kernel)
  obtain ⟨found', hOrder'⟩ := exists_eq_ok_of_isSome
    (x := ((samplePlanner ((subqueryJoins plainSubquery).map nameSubquery)).order id sampleCatalog
      sampleStats none true).2.outcome) (by decide +kernel)
  obtain ⟨plans, hPlans⟩ := exists_plans_of_order hOrder
  have hKeys : ∀ p ∈ subqueryJoins plainSubquery, p.isSubplan = true →
      ((samplePlanner (subqueryJoins plainSubquery)).setting sampleCatalog sampleStats none).isKey
          (nameSubquery p).right =
        ((samplePlanner (subqueryJoins plainSubquery)).setting sampleCatalog sampleStats
          none).isKey p.right := by
    intro p hp hKind
    rcases List.mem_cons.mp hp with rfl | hp
    · rfl
    · rw [List.mem_singleton.mp hp] at hKind
      cases hKind
  obtain ⟨-, hUntied⟩ := order_other_subqueries sameCondition_nameSubquery
    (by decide +kernel) (isFor_samplePlanner (subqueryJoins plainSubquery))
    (isFor_samplePlanner _) rfl hKeys (fun l => List.Perm.refl (id l)) true
  obtain ⟨rfl, -⟩ := (hUntied List.reverse found plans (fun l => l.reverse_perm) hOrder hPlans
    (untied_plainSubquery plans hPlans)).of_eq_ok hOrder'
  exact ⟨found, hOrder, hOrder'⟩

end Planner

end JoinPlanner
