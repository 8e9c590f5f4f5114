import JoinPlanner.Planner.Basic
import JoinPlanner.Proofs.Planner.Checks
import JoinPlanner.Proofs.Search.Levels
import JoinPlanner.Proofs.UniqueJoins

/-!
# JoinPlanner — what a run leaves behind

A run checks its inputs, searches for plans, and reads the plan of all joins. Its parts
are taken apart once; later proofs know a run by its table of plans.

* `IsFor`                — the planner was made for some predicates.
* `given`                — an order of its joins, taken back to their given orientations.
* `findPlans_eq_ok_iff`  — the search starts if the checks pass.
* `searched_of_findPlans` — its table is finished.
* `exists_explanation_of_order` — an order remembers its run and changes nothing else.
* `outcome_order`        — an order fails like its run or like its explanation.
* `order_cases`          — a returned order is the plan of all joins in the table.
* `executes_of_order`    — so it executes all joins.
-/

namespace JoinPlanner.Planner

open Outcome

variable {planner : Planner} {predicates : List Predicate} {visit : Visit} {catalog : Catalog}
  {stats : Snapshot} {selectivities : Option Selectivities} {explained : Bool}

-- ---------------------------------------------------------------------------
-- The joins of a planner
-- ---------------------------------------------------------------------------

/-- The planner was made for the predicates. It may have run before. -/
def IsFor (planner : Planner) (predicates : List Predicate) : Prop :=
  planner.unique = UniqueJoins.ofList predicates

theorem isFor_create {fraction : Quantity} {verbose : Bool}
    (h : (create predicates fraction verbose).outcome = .ok planner) :
    planner.IsFor predicates := by
  cases h
  rfl

theorem IsFor.collects (h : planner.IsFor predicates) : planner.unique.Collects predicates :=
  h ▸ UniqueJoins.collects_ofList predicates

theorem IsFor.distinct (h : planner.IsFor predicates) : DistinctJoins planner.joins :=
  h.collects.distinct

/-- A planner for distinct joins keeps them all. -/
theorem IsFor.joins_eq (h : planner.IsFor predicates) (hDistinct : DistinctJoins predicates) :
    planner.joins = predicates := by
  rw [joins, h, UniqueJoins.joins_ofList_of_distinct hDistinct]

/-- What holds of all predicates holds of all joins. -/
theorem IsFor.forall_joins (h : planner.IsFor predicates) {P : Predicate → Prop}
    (hAll : ∀ p ∈ predicates, P p) : ∀ p ∈ planner.joins, P p :=
  fun p hp => hAll p (h.collects.subset p hp)

theorem IsFor.representative?_eq_some_iff (h : planner.IsFor predicates) {p q : Predicate} :
    planner.unique.representative? q = some p ↔ p ∈ planner.joins ∧ q.SameJoin p := by
  rw [joins, h]
  exact UniqueJoins.representative?_eq_some_iff

/-- The joins of an order, taken back to the orientations in which they were given. -/
def given (planner : Planner) (order : List Predicate) : List Predicate :=
  order.filterMap planner.unique.representative?

theorem IsFor.given_eq (h : planner.IsFor predicates) {order joins : List Predicate}
    (hSame : List.Forall₂ Predicate.SameJoin order joins)
    (hJoins : ∀ p ∈ joins, p ∈ planner.joins) : planner.given order = joins := by
  induction hSame with
  | nil => rfl
  | @cons q p order joins hJoin _ ih =>
    have hFirst := h.representative?_eq_some_iff.mpr ⟨hJoins p List.mem_cons_self, hJoin⟩
    rw [given, List.filterMap_cons_some hFirst]
    exact congrArg (p :: ·) (ih fun r hr => hJoins r (List.mem_cons_of_mem p hr))

/-- The joins of an order are looked up one by one, if each of them is one of the planner's. -/
theorem IsFor.mapM_representative (h : planner.IsFor predicates) {order joins : List Predicate}
    (hSame : List.Forall₂ Predicate.SameJoin order joins)
    (hJoins : ∀ p ∈ joins, p ∈ planner.joins) : order.mapM planner.representative = .ok joins := by
  induction hSame with
  | nil => rfl
  | @cons q p order joins hJoin _ ih =>
    have hFirst : planner.representative q = .ok p := by
      rw [representative, h.representative?_eq_some_iff.mpr ⟨hJoins p List.mem_cons_self, hJoin⟩]
    rw [List.mapM_cons, hFirst, ih fun r hr => hJoins r (List.mem_cons_of_mem p hr)]
    rfl

/-- What is looked up one by one are the joins as they were given. -/
theorem given_of_mapM {order joins : List Predicate}
    (h : order.mapM planner.representative = .ok joins) : planner.given order = joins := by
  have hAll := forall₂_of_mapM h
  clear h
  induction hAll with
  | nil => rfl
  | @cons q p order joins hFirst _ ih =>
    have hSome : planner.unique.representative? q = some p := by
      rw [representative] at hFirst
      split at hFirst
      · rwa [← Except.ok.inj hFirst]
      · cases hFirst
    rw [given, List.filterMap_cons_some hSome]
    exact congrArg (p :: ·) ih

/-- The joins of an order, as they were given, are those that it executes. -/
theorem IsFor.given_perm (h : planner.IsFor predicates) {order joins : List Predicate}
    (hExecutes : Executes order joins) (hJoins : ∀ p ∈ joins, p ∈ planner.joins) :
    (planner.given order).Perm joins := by
  obtain ⟨given, hPerm, hSame⟩ := hExecutes
  rw [h.given_eq hSame fun p hp => hJoins p (hPerm.mem_iff.mp hp)]
  exact hPerm

-- ---------------------------------------------------------------------------
-- The search
-- ---------------------------------------------------------------------------

theorem outcome_findPlans : (planner.findPlans visit catalog stats selectivities).outcome =
    planner.checkInputs catalog stats selectivities >>= fun _ =>
      ((planner.setting catalog stats selectivities).search visit planner.verbose
        planner.joins).outcome := by
  simp only [findPlans, Traced.outcome_bind, Traced.outcome_liftM, Traced.outcome_progress]
  rfl

theorem findPlans_eq_ok_iff {plans : PlanTable} :
    (planner.findPlans visit catalog stats selectivities).outcome = .ok plans ↔
      planner.checkInputs catalog stats selectivities = .ok () ∧
      ((planner.setting catalog stats selectivities).search visit planner.verbose
        planner.joins).outcome = .ok plans := by
  rw [outcome_findPlans, bind_eq_ok]
  constructor
  · rintro ⟨_, hChecks, hSearch⟩
    exact ⟨hChecks, hSearch⟩
  · rintro ⟨hChecks, hSearch⟩
    exact ⟨(), hChecks, hSearch⟩

/-- The table of a run is finished. -/
theorem searched_of_findPlans (hFor : planner.IsFor predicates) (hVisit : ∀ l, (visit l).Perm l)
    {plans : PlanTable}
    (h : (planner.findPlans visit catalog stats selectivities).outcome = .ok plans) :
    Searched (planner.setting catalog stats selectivities) visit planner.joins
      planner.joins.length plans :=
  searched_of_search hFor.distinct.nodup hVisit (findPlans_eq_ok_iff.mp h).2

/-- If the checks pass, only a number that leaves its range stops the search. -/
theorem ensures_findPlans (hFor : planner.IsFor predicates)
    (hNamed : ∀ p ∈ predicates, p.Named) (hVisit : ∀ l, (visit l).Perm l)
    (hChecks : planner.checkInputs catalog stats selectivities = .ok ()) :
    (planner.findPlans visit catalog stats selectivities).outcome.Ensures
      PlannerError.IsNumberError
      (Searched (planner.setting catalog stats selectivities) visit planner.joins
        planner.joins.length) := by
  rw [outcome_findPlans, hChecks]
  refine ensures_search ?_ hFor.distinct.nodup hVisit planner.verbose
  have hKnown := knownJoin_of_checks hChecks (hFor.forall_joins hNamed)
  intro bound previous p hp hPrevious
  refine Setting.ensures_extendBelow (fun q hq => ?_) (hKnown p hp)
  obtain ⟨r, hr, hSame⟩ := hPrevious q hq
  exact (hKnown r hr).of_sameJoin hSame

-- ---------------------------------------------------------------------------
-- The run
-- ---------------------------------------------------------------------------

theorem run_of_nil (h : planner.joins = []) (visit : Visit) (catalog : Catalog) (stats : Snapshot)
    (selectivities : Option Selectivities) :
    (planner.run visit catalog stats selectivities).1.plans = some .empty ∧
      (planner.run visit catalog stats selectivities).2.outcome = .ok [] := by
  rw [run, if_pos (List.isEmpty_iff.mpr h)]
  exact ⟨rfl, rfl⟩

theorem run_of_error (h : planner.joins ≠ []) {e : PlannerError}
    (hFind : (planner.findPlans visit catalog stats selectivities).outcome = .error e) :
    (planner.run visit catalog stats selectivities).1.plans = none ∧
      (planner.run visit catalog stats selectivities).2.outcome = .error e := by
  rw [run, if_neg (by simpa using h)]
  simp [hFind]

/-- With a table of plans the run needs the plan of all joins and the scans of their tables. -/
theorem run_of_ok (h : planner.joins ≠ []) {plans : PlanTable}
    (hFind : (planner.findPlans visit catalog stats selectivities).outcome = .ok plans) :
    (planner.run visit catalog stats selectivities).1.plans = some plans ∧
      (planner.run visit catalog stats selectivities).2.outcome =
        match plans.get? (JoinSet.ofList planner.joins) with
        | none => linkedGroups planner.joins >>= fun groups => .error (.noFeasiblePlan groups)
        | some plan => scansOf (planner.setting catalog stats selectivities) planner.joins >>=
            fun _ => .ok plan.order := by
  rw [run, if_neg (by simpa using h)]
  simp only [hFind]
  cases plans.get? (JoinSet.ofList planner.joins) with
  | none => exact ⟨rfl, rfl⟩
  | some plan =>
    cases scansOf (planner.setting catalog stats selectivities) planner.joins with
    | error e => exact ⟨rfl, rfl⟩
    | ok scans => exact ⟨rfl, rfl⟩

/-- What a run remembers that has got as far as the scans. -/
theorem last_of_ok (h : planner.joins ≠ []) {plans : PlanTable} {plan : Plan}
    {scans : ScanEstimates}
    (hFind : (planner.findPlans visit catalog stats selectivities).outcome = .ok plans)
    (hPlan : plans.get? (JoinSet.ofList planner.joins) = some plan)
    (hScans : scansOf (planner.setting catalog stats selectivities) planner.joins = .ok scans) :
    (planner.run visit catalog stats selectivities).1 =
      { plans := some plans, order := some plan.order, scans } := by
  rw [run, if_neg (by simpa using h)]
  simp only [hFind, hPlan, hScans]

-- ---------------------------------------------------------------------------
-- The order
-- ---------------------------------------------------------------------------

/-- An order changes only what is remembered: its run, and an explanation of that. -/
theorem exists_explanation_of_order (planner : Planner) (visit : Visit) (catalog : Catalog)
    (stats : Snapshot) (selectivities : Option Selectivities) (explained : Bool) :
    ∃ explanation, (planner.order visit catalog stats selectivities explained).1 =
      { planner with
        last := { (planner.run visit catalog stats selectivities).1 with explanation } } := by
  unfold order
  generalize planner.run visit catalog stats selectivities = ran
  obtain ⟨last, ordered⟩ := ran
  simp only [remember]
  split
  · split <;> rename_i hExplain <;> split at hExplain <;> cases hExplain <;> exact ⟨_, rfl⟩
  · exact ⟨last.explanation, rfl⟩

/-- Explaining an order changes no plans. -/
theorem order_last_plans :
    (planner.order visit catalog stats selectivities explained).1.last.plans =
      (planner.run visit catalog stats selectivities).1.plans := by
  obtain ⟨explanation, hLast⟩ :=
    exists_explanation_of_order planner visit catalog stats selectivities explained
  rw [hLast]

/-- A run changes no joins. -/
theorem order_joins :
    (planner.order visit catalog stats selectivities explained).1.joins = planner.joins := by
  obtain ⟨explanation, hLast⟩ :=
    exists_explanation_of_order planner visit catalog stats selectivities explained
  rw [hLast]
  rfl

/-- An order that is to be explained fails like its run, or else like its explanation. -/
theorem outcome_order :
    (planner.order visit catalog stats selectivities explained).2.outcome =
      (planner.run visit catalog stats selectivities).2.outcome >>= fun found =>
        if explained = true then
          explain { planner with last := (planner.run visit catalog stats selectivities).1 } >>=
            fun _ => .ok found
        else .ok found := by
  unfold order
  generalize planner.run visit catalog stats selectivities = ran
  obtain ⟨last, events, outcome⟩ := ran
  cases outcome with
  | error e => rfl
  | ok found =>
    cases explained with
    | false => rfl
    | true =>
      simp only [remember]
      show _ = (explain { planner with last } >>= fun _ => .ok found : Outcome _)
      cases explain { planner with last } with
      | error e => rfl
      | ok e => rfl

theorem order_eq_ok {found : List Predicate}
    (h : (planner.order visit catalog stats selectivities explained).2.outcome = .ok found) :
    (planner.run visit catalog stats selectivities).2.outcome = .ok found := by
  rw [outcome_order] at h
  obtain ⟨found', hRun, h⟩ := bind_eq_ok.mp h
  split at h
  · obtain ⟨_, -, h⟩ := bind_eq_ok.mp h
    exact hRun.trans h
  · exact hRun.trans h

theorem order_of_error {e : PlannerError}
    (h : (planner.run visit catalog stats selectivities).2.outcome = .error e) :
    (planner.order visit catalog stats selectivities explained).2.outcome = .error e := by
  rw [outcome_order, h]
  rfl

/-- An order that is returned is the plan of all joins. -/
theorem order_cases {found : List Predicate}
    (h : (planner.order visit catalog stats selectivities explained).2.outcome = .ok found) :
    (planner.joins = [] ∧ found = [] ∧
      (planner.order visit catalog stats selectivities explained).1.last.plans = some .empty) ∨
    (planner.joins ≠ [] ∧ ∃ plans plan,
      (planner.findPlans visit catalog stats selectivities).outcome = .ok plans ∧
      (planner.order visit catalog stats selectivities explained).1.last.plans = some plans ∧
      plans.get? (JoinSet.ofList planner.joins) = some plan ∧ found = plan.order) := by
  have hRun := order_eq_ok h
  rw [order_last_plans]
  by_cases hJoins : planner.joins = []
  · obtain ⟨hPlans, hOutcome⟩ := run_of_nil hJoins visit catalog stats selectivities
    exact Or.inl ⟨hJoins, (Except.ok.inj (hOutcome.symm.trans hRun)).symm, hPlans⟩
  · refine Or.inr ⟨hJoins, ?_⟩
    cases hFind : (planner.findPlans visit catalog stats selectivities).outcome with
    | error e => cases (run_of_error hJoins hFind).2.symm.trans hRun
    | ok plans =>
      obtain ⟨hPlans, hOutcome⟩ := run_of_ok hJoins hFind
      rw [hOutcome] at hRun
      cases hGet : plans.get? (JoinSet.ofList planner.joins) with
      | none =>
        rw [hGet] at hRun
        obtain ⟨groups, -, hThrow⟩ := bind_eq_ok.mp hRun
        cases hThrow
      | some plan =>
        rw [hGet] at hRun
        obtain ⟨scans, -, hOrder⟩ := bind_eq_ok.mp hRun
        exact ⟨plans, plan, rfl, hPlans, hGet, (Except.ok.inj hOrder).symm⟩

/-- A run that returns an order leaves a table of plans. -/
theorem exists_plans_of_order {found : List Predicate}
    (h : (planner.order visit catalog stats selectivities explained).2.outcome = .ok found) :
    ∃ plans,
      (planner.order visit catalog stats selectivities explained).1.last.plans = some plans := by
  rcases order_cases h with ⟨-, -, hPlans⟩ | ⟨-, plans, _, -, hPlans, -⟩
  · exact ⟨.empty, hPlans⟩
  · exact ⟨plans, hPlans⟩

/-- An order that is returned executes all joins. -/
theorem executes_of_order (hFor : planner.IsFor predicates) (hVisit : ∀ l, (visit l).Perm l)
    {found : List Predicate}
    (h : (planner.order visit catalog stats selectivities explained).2.outcome = .ok found) :
    Executes found planner.joins := by
  rcases order_cases h with ⟨hJoins, hFound, -⟩ | ⟨hJoins, plans, plan, hFind, -, hPlan, hFound⟩
  · rw [hJoins, hFound]
    exact executes_nil
  · have hSearched := searched_of_findPlans hFor hVisit hFind
    rw [plans.get?_ofList fun p => Iff.rfl] at hPlan
    rw [hFound]
    exact (hSearched.planFor hFor.distinct.nodup hVisit (within_all hJoins) hPlan).executes

end JoinPlanner.Planner
