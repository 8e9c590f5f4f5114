import JoinPlanner.Proofs.Planner.ExplainedTrees
import JoinPlanner.Proofs.Search.SameCondition

/-!
# JoinPlanner — a second run

A run that returns an order has planned every set of its joins, so it tells what another run
comes to whose joins correspond and that reads the same tables. The other run passes the same
checks, and it finds plans that are as good, unless it counts the tuples of a join that the
first run did not have to count.

* `exists_hasKey_of_searched` — a plan that is extended has been looked up.
* `reference_of_findPlans`    — so the plans of a run are a reference.
* `Corresponding`             — two planners for joins that correspond.
* `Uncounted`                 — the errors that can stop the second run.
* `Returns.not_uncounted`     — there are none, if no sequence of trials stops the first one.
* `SameEstimates`             — plans that cost the same and produce equally many tuples.
* `ensures_second_order`      — the second run finds plans as good as those of the first one,
* `order_repeats`             — or the same ones, if there are no ties.
-/

namespace JoinPlanner

open Outcome PlannerError

/-- The cost and the cardinality of a plan. -/
def Plan.estimate (plan : Plan) : Estimate := (plan.cost, plan.cardinality)

-- ---------------------------------------------------------------------------
-- The first run
-- ---------------------------------------------------------------------------

/-- A plan that leaves linked joins over is extended, so its keys have been looked up. -/
theorem exists_hasKey_of_searched {s : Setting} {visit : Visit} {joins members : List Predicate}
    {plans : PlanTable} {plan : Plan} (h : Searched s visit joins joins.length plans)
    (hNodup : joins.Nodup) (hVisit : ∀ l, (visit l).Perm l)
    (hTables : ∀ p ∈ joins, ∃ a : String, some a ∈ p.tables) (hLinked : Linked joins)
    (hWithin : Within joins joins.length members) (hProper : members.length < joins.length)
    (hPlan : plans.get? ⟨members⟩ = some plan) : ∃ key, s.hasKey plan.order = .ok key := by
  have hMembers := hWithin.nodup hNodup
  have hSplit : (members ++ joins.filter fun p => decide (p ∉ members)).Perm joins := by
    rw [List.perm_ext_iff_of_nodup _ hNodup]
    · intro p
      have hSubset : p ∈ members → p ∈ joins := fun hp => hWithin.sublist.subset hp
      simp only [List.mem_append, List.mem_filter, decide_eq_true_eq]
      tauto
    · refine hMembers.append (hNodup.filter _) fun p hp hLeft => ?_
      exact of_decide_eq_true (List.mem_filter.mp hLeft).2 hp
  have hLeft : (joins.filter fun p => decide (p ∉ members)) ≠ [] := by
    intro hEmpty
    have hLength := hSplit.length_eq
    rw [hEmpty, List.append_nil] at hLength
    omega
  obtain ⟨p, hp, hTouches⟩ := exists_touches_of_linked
    (fun q hq => hTables q (hSplit.mem_iff.mp hq))
    ((linked_iff_of_executes (executes_of_perm hSplit)).mpr hLinked) hWithin.nonempty hLeft
  obtain ⟨hJoins, hNew⟩ := List.mem_filter.mp hp
  -- the set with the join that touches the plan is planned by extending it
  have hSubset : ∀ q ∈ p :: members, q ∈ joins :=
    List.forall_mem_cons.mpr ⟨hJoins, fun q hq => hWithin.sublist.subset hq⟩
  obtain ⟨larger, hLarger, hMem⟩ := exists_within (List.cons_ne_nil p members) hSubset
  have hErase : larger.erase p = members := by
    refine eq_of_sublist hNodup (List.erase_sublist.trans hLarger.sublist) hWithin.sublist
      fun q => ?_
    have hNot : p ∉ members := of_decide_eq_true hNew
    rw [(hLarger.nodup hNodup).mem_erase_iff, ← hMem, List.mem_cons]
    constructor
    · rintro ⟨hNe, hSame | hq⟩
      · exact absurd hSame hNe
      · exact hq
    · exact fun hq => ⟨fun hSame => hNot (hSame ▸ hq), Or.inr hq⟩
  have hPrevious : Setting.previousOf? plans.get? ⟨larger⟩ p = some (some plan) := by
    rw [Setting.previousOf?_eq (hLarger.nodup hNodup), hErase, if_neg hWithin.nonempty, hPlan]
    rfl
  have hExecutes := (h.planFor hNodup hVisit hWithin hPlan).executes
  obtain ⟨o, hLast⟩ := (h.bestOf hLarger).estimated p
    ((hVisit larger).mem_iff.mpr ((hMem p).mp List.mem_cons_self)) (some plan) hPrevious
    fun kept hKept => Option.some.inj hKept ▸ (touches_iff_of_executes hExecutes p).mpr hTouches
  obtain ⟨l, r, hInputs, -⟩ := hLast.next
  have hInput : ∃ input, s.planInput plan = .ok input := by
    cases hInputs with
    | onLeft _ left _ => exact ⟨l, left⟩
    | onRight _ _ _ right _ => exact ⟨r, right⟩
  obtain ⟨input, hInput⟩ := hInput
  obtain ⟨key, hKey, -⟩ := bind_eq_ok.mp hInput
  exact ⟨key, hKey⟩

namespace Planner

variable {planner planner' : Planner} {predicates predicates' : List Predicate}
  {visit visit' : Visit} {catalog : Catalog} {stats : Snapshot}
  {selectivities : Option Selectivities} {explained explained' : Bool}
  {found : List Predicate} {plans plans' : PlanTable} {other : Predicate → Predicate}

/-- The plans of a run are a reference, if costs can be compared and ties are as large. -/
theorem reference_of_findPlans (hFor : planner.IsFor predicates) (hVisit : ∀ l, (visit l).Perm l)
    (hFind : (planner.findPlans visit catalog stats selectivities).outcome = .ok plans)
    (hComparable : ∀ members, Within planner.joins planner.joins.length members →
      (planner.setting catalog stats selectivities).Comparable plans.get? ⟨members⟩)
    (hCards : ∀ members, Within planner.joins planner.joins.length members →
      (planner.setting catalog stats selectivities).SameCards plans.get? ⟨members⟩) :
    Reference (planner.setting catalog stats selectivities) visit planner.joins plans := by
  have hSearched := searched_of_findPlans hFor hVisit hFind
  have hChecks := (findPlans_eq_ok_iff.mp hFind).1
  have hNodes := hasNodes_of_checkLinked (exists_of_checks hChecks).2
  refine ⟨hSearched, hFor.distinct.nodup, hVisit, fun members hWithin hProper plan hPlan => ?_,
    hComparable, hCards⟩
  exact exists_hasKey_of_searched hSearched hFor.distinct.nodup hVisit
    (fun p hp => (hNodes p hp).exists_table) (linked_of_checks hChecks) hWithin hProper hPlan

/-- The error of counting the tuples of some join that a search has tried as a last one and that
has not reached the bound. -/
def Uncounted (s : Setting) (joins : List Predicate) (plans : PlanTable) (e : PlannerError) :
    Prop :=
  e.IsNumberError ∧ ∃ members, Within joins joins.length members ∧ ∃ p ∈ members,
    ∃ previous o, s.LastJoin plans.get? ⟨members⟩ p previous o ∧ unbounded.le o.cost = false ∧
      s.complete previous o = .error e

/-- Counting the tuples of a join of known tables fails only by a number. -/
theorem ensures_cardinalityOf (hChecks : planner.checkInputs catalog stats selectivities = .ok ())
    {p q : Predicate} (hp : p ∈ planner.joins) (hSame : q.SameJoin p)
    (leftCard rightCard : Cardinality) (leftKey rightKey : Bool) :
    ((planner.setting catalog stats selectivities).joinCardinality q leftCard rightCard leftKey
      rightKey).Ensures IsNumberError fun _ => True :=
  Setting.ensures_joinCardinality (fun hKind => known_sides_of_checks hChecks hp hSame hKind)
    leftCard rightCard leftKey rightKey

/-- The joins of the first run have a number of tuples, or it cannot be counted. -/
theorem ensures_uncounted (hChecks : planner.checkInputs catalog stats selectivities = .ok ())
    {members : List Predicate} (hWithin : Within planner.joins planner.joins.length members)
    {p : Predicate} (hp : p ∈ members) {previous : Option Plan} {o : Oriented}
    (hLast : (planner.setting catalog stats selectivities).LastJoin plans.get? ⟨members⟩ p
      previous o) (hBound : unbounded.le o.cost = false) :
    ((planner.setting catalog stats selectivities).cardinalityOf o).Ensures
      (Uncounted (planner.setting catalog stats selectivities) planner.joins plans)
      fun _ => True := by
  have hNumber := ensures_cardinalityOf hChecks (hWithin.sublist.subset hp) hLast.next.sameJoin
    o.left.cardinality o.right.cardinality o.left.key o.right.key
  cases hCount : (planner.setting catalog stats selectivities).cardinalityOf o with
  | ok card => exact .ok trivial
  | error e =>
    refine .error
      ⟨hNumber.of_eq_error hCount, members, hWithin, p, hp, previous, o, hLast, hBound, ?_⟩
    show (_ >>= _) = _
    rw [show Setting.joinCardinality _ o.join _ _ _ _ = .error e from hCount]
    rfl

-- ---------------------------------------------------------------------------
-- Planners that correspond
-- ---------------------------------------------------------------------------

/-- The joins of the second planner are those of the first one under other names. -/
structure Corresponding (planner planner' : Planner) (other : Predicate → Predicate) : Prop where
  perm : planner'.joins.Perm (planner.joins.map other)
  fraction : planner'.fraction = planner.fraction
  tables : ∀ p ∈ planner.joins, ∀ table, table ∈ (other p).tables ↔ table ∈ p.tables
  nodes : ∀ p ∈ planner.joins, JoinGraph.HasNodes p → JoinGraph.HasNodes (other p)

namespace Corresponding

theorem exists_join (h : Corresponding planner planner' other) {q : Predicate}
    (hq : q ∈ planner'.joins) : ∃ p ∈ planner.joins, other p = q :=
  List.mem_map.mp (h.perm.mem_iff.mp hq)

theorem other_mem (h : Corresponding planner planner' other) {p : Predicate}
    (hp : p ∈ planner.joins) : other p ∈ planner'.joins :=
  h.perm.mem_iff.mpr (List.mem_map_of_mem hp)

theorem mem_tablesIn_iff (h : Corresponding planner planner' other) {table : Option String} :
    table ∈ Predicate.tablesIn planner'.joins ↔ table ∈ Predicate.tablesIn planner.joins := by
  rw [Predicate.mem_tablesIn, Predicate.mem_tablesIn]
  constructor
  · rintro ⟨q, hq, hTable⟩
    obtain ⟨p, hp, rfl⟩ := h.exists_join hq
    exact ⟨p, hp, (h.tables p hp table).mp hTable⟩
  · rintro ⟨p, hp, hTable⟩
    exact ⟨other p, h.other_mem hp, (h.tables p hp table).mpr hTable⟩

theorem joins_ne_nil (h : Corresponding planner planner' other) (hJoins : planner.joins ≠ []) :
    planner'.joins ≠ [] := by
  obtain ⟨p, hp⟩ := List.exists_mem_of_ne_nil _ hJoins
  exact List.ne_nil_of_mem (h.other_mem hp)

/-- The searches of both planners read the same of every table. -/
theorem sameReadings (h : Corresponding planner planner' other) (catalog : Catalog)
    (stats : Snapshot) (selectivities : Option Selectivities) :
    SameReadings (planner.setting catalog stats selectivities)
      (planner'.setting catalog stats selectivities) := by
  refine ⟨rfl, rfl, h.fraction, fun a => ?_⟩
  cases selectivities with
  | some given => rfl
  | none =>
    show (noFilters planner'.joins).get? a = (noFilters planner.joins).get? a
    rw [get?_noFilters, get?_noFilters]
    exact if_congr h.mem_tablesIn_iff rfl rfl

/-- Both planners pass the checks. -/
theorem checkInputs (h : Corresponding planner planner' other)
    (hChecks : planner.checkInputs catalog stats selectivities = .ok ()) :
    planner'.checkInputs catalog stats selectivities = .ok () := by
  obtain ⟨hKnown, hLinked⟩ := exists_of_checks hChecks
  have hNodes := hasNodes_of_checkLinked hLinked
  refine checkInputs_of_known (fun q hq => ?_)
    (fun table hTable => hKnown table (h.mem_tablesIn_iff.mp hTable)) ?_
  · obtain ⟨p, hp, rfl⟩ := h.exists_join hq
    exact h.nodes p hp (hNodes p hp)
  · refine (linked_of_checks hChecks).of_tables (fun p hp => ?_) fun q hq => ?_
    · exact ⟨other p, h.other_mem hp, fun a => (h.tables p hp _).mpr⟩
    · obtain ⟨p, hp, rfl⟩ := h.exists_join hq
      exact ⟨p, hp, fun a => (h.tables p hp _).mp⟩

end Corresponding

-- ---------------------------------------------------------------------------
-- Planners for the same joins
-- ---------------------------------------------------------------------------

theorem corresponding_of_perm (hPerm : planner'.joins.Perm planner.joins)
    (hFraction : planner'.fraction = planner.fraction) : Corresponding planner planner' id :=
  ⟨by rwa [List.map_id], hFraction, fun _ _ _ => Iff.rfl, fun _ _ hNodes => hNodes⟩

/-- A join extends a plan like itself, whatever the sequence of the joins. -/
theorem follows_of_perm (h : Corresponding planner planner' id) (plans : PlanTable)
    (hChecks : planner.checkInputs catalog stats selectivities = .ok ()) :
    Follows (planner.setting catalog stats selectivities)
      (planner'.setting catalog stats selectivities) planner.joins id plans :=
  follows_of_sameCondition (h.sameReadings catalog stats selectivities)
    (fun p => Predicate.SameCondition.refl p) (fun _ _ _ _ hSame => hSame)
    (fun _ hp hKind => exists_isKey_of_checks hChecks hp hKind) fun _ _ => rfl

/-- Runs return an order, in whatever sequence the joins of a set are tried. -/
def Returns (planner : Planner) (catalog : Catalog) (stats : Snapshot)
    (selectivities : Option Selectivities) (explained : Bool) : Prop :=
  ∀ visit : Visit, (∀ l, (visit l).Perm l) → ∃ found,
    (planner.order visit catalog stats selectivities explained).2.outcome = .ok found

/-- A join is tried first. -/
def tryFirst (p : Predicate) : Visit := fun l => if p ∈ l then p :: l.erase p else l

theorem tryFirst_perm (p : Predicate) (l : List Predicate) : (tryFirst p l).Perm l := by
  rw [tryFirst]
  split
  · exact (List.perm_cons_erase ‹_›).symm
  · exact .refl l

/-- If no run fails, the tuples of all joins below the bound can be counted. -/
theorem Returns.not_uncounted (h : planner.Returns catalog stats selectivities explained)
    (hFor : planner.IsFor predicates)
    (hChecks : planner.checkInputs catalog stats selectivities = .ok ())
    (hReference : Reference (planner.setting catalog stats selectivities) visit planner.joins
      plans) (e : PlannerError) :
    ¬ Uncounted (planner.setting catalog stats selectivities) planner.joins plans e := by
  rintro ⟨-, members, hWithin, p, hp, previous, o, hLast, hBound, hError⟩
  -- a run that tries the join first counts its tuples
  obtain ⟨found, hOrder⟩ := h (tryFirst p) (tryFirst_perm p)
  rcases order_cases hOrder with ⟨hNil, -⟩ | ⟨-, plans', _, hFind, -⟩
  · have hJoins := hWithin.sublist.subset hp
    rw [hNil] at hJoins
    cases hJoins
  · have hSame : Corresponding planner planner id :=
      corresponding_of_perm (.refl planner.joins) rfl
    obtain ⟨card, hCard⟩ := (searched_of_findPlans hFor (tryFirst_perm p) hFind).exists_cardinality
      hReference (follows_of_perm hSame plans hChecks) hSame.perm (tryFirst_perm p) hWithin hp
      (fun l hl => ⟨l.erase p, if_pos hl⟩) hLast hBound
    cases hError.symm.trans (Setting.complete_eq_ok_iff.mpr ⟨card, hCard, rfl⟩)

-- ---------------------------------------------------------------------------
-- Tables of plans
-- ---------------------------------------------------------------------------

/-- Corresponding sets have plans that cost the same and produce equally many tuples, or none. -/
def SameEstimates (joins : List Predicate) (other : Predicate → Predicate)
    (plans plans' : PlanTable) : Prop :=
  ∀ members, (∀ p ∈ members, p ∈ joins) →
    (plans'.get? (.ofList (members.map other))).map Plan.estimate =
      (plans.get? (.ofList members)).map Plan.estimate

/-- Corresponding sets have the same plan, up to the names of its joins. -/
def SamePlans (joins : List Predicate) (other : Predicate → Predicate)
    (plans plans' : PlanTable) : Prop :=
  ∀ members, (∀ p ∈ members, p ∈ joins) →
    plans'.get? (.ofList (members.map other)) =
      (plans.get? (.ofList members)).map (Plan.renamed other)

section Tables

variable {s s' : Setting} {joins joins' members : List Predicate} {size : Nat}

/-- There are plans of sets of the joins only, and none of the empty set. -/
theorem get?_eq_none_of_searched (h : Searched s visit joins size plans)
    (hNot : members = [] ∨ ∃ p ∈ members, p ∉ joins) : plans.get? ⟨members⟩ = none := by
  refine Association.get?_eq_none_iff.mpr fun e he => Bool.eq_false_iff.mpr fun hSame => ?_
  have hWithin := h.sets e he
  have hMem := JoinSet.beq_iff.mp hSame
  rcases hNot with rfl | ⟨p, hp, hOutside⟩
  · obtain ⟨p, hp⟩ := List.exists_mem_of_ne_nil _ hWithin.nonempty
    cases (hMem p).mp hp
  · exact hOutside (hWithin.sublist.subset ((hMem p).mpr hp))

/-- What holds of sets as searches list them holds of all sets that correspond. -/
theorem forall_sets_of_within {R : Option Plan → Option Plan → Prop} (hNone : R none none)
    (hSearched : Searched s visit joins joins.length plans)
    (hSearched' : Searched s' visit' joins' joins'.length plans') (hNodup : joins.Nodup)
    (hPerm : joins'.Perm (joins.map other))
    (hInjective : ∀ p ∈ joins, ∀ q ∈ joins, other p = other q → p = q)
    (h : ∀ listed listed', Within joins joins.length listed → Within joins' joins'.length listed' →
      listed'.Perm (listed.map other) → R (plans.get? ⟨listed⟩) (plans'.get? ⟨listed'⟩)) :
    ∀ members, (∀ p ∈ members, p ∈ joins) →
      R (plans.get? (.ofList members)) (plans'.get? (.ofList (members.map other))) := by
  intro members hMembers
  by_cases hNe : members = []
  · subst hNe
    rw [List.map_nil, plans.get?_ofList fun p => Iff.rfl, plans'.get?_ofList fun p => Iff.rfl,
      get?_eq_none_of_searched hSearched (Or.inl rfl),
      get?_eq_none_of_searched hSearched' (Or.inl rfl)]
    exact hNone
  · obtain ⟨listed, hWithin, hSame⟩ := exists_within hNe hMembers
    obtain ⟨listed', hWithin', hListed⟩ := exists_within_map hNodup hInjective hPerm hWithin
    have hSame' : ∀ q, q ∈ members.map other ↔ q ∈ listed' := by
      intro q
      rw [hListed.mem_iff, List.mem_map, List.mem_map]
      exact exists_congr fun p => and_congr_left fun _ => hSame p
    rw [plans.get?_ofList hSame, plans'.get?_ofList hSame']
    exact h listed listed' hWithin hWithin' hListed

end Tables

-- ---------------------------------------------------------------------------
-- The second run
-- ---------------------------------------------------------------------------

/-- What a second run leaves behind: plans as good as those of the first one. -/
structure AsGood (planner planner' : Planner) (visit' : Visit) (catalog : Catalog)
    (stats : Snapshot) (selectivities : Option Selectivities) (other : Predicate → Predicate)
    (plans : PlanTable) (found' : List Predicate) (plans' : PlanTable) : Prop where
  searched : Searched (planner'.setting catalog stats selectivities) visit' planner'.joins
    planner'.joins.length plans'
  agree : AgreeUpTo (planner.setting catalog stats selectivities)
    (planner'.setting catalog stats selectivities) planner.joins other plans planner'.joins
    planner'.joins.length plans'
  /-- The order that is returned is the plan of all joins. -/
  order : ∃ plan', plans'.get? ⟨planner'.joins⟩ = some plan' ∧ found' = plan'.order

/-- If the plans are the same, so are the orders. -/
theorem AsGood.order_eq
    (h : AsGood planner planner' visit' catalog stats selectivities other plans found plans')
    (hCorresponding : Corresponding planner planner' other)
    (hPlans : SamePlans planner.joins other plans plans') {plan : Plan}
    (hPlan : plans.get? ⟨planner.joins⟩ = some plan) : found = plan.order.map other := by
  obtain ⟨plan', hPlan', rfl⟩ := h.order
  have hAll := hPlans planner.joins fun p hp => hp
  rw [plans.get?_ofList fun p => Iff.rfl, hPlan,
    plans'.get?_ofList fun p => hCorresponding.perm.symm.mem_iff, hPlan'] at hAll
  rw [Option.some.inj hAll]
  rfl

section Results

variable (h : AsGood planner planner' visit' catalog stats selectivities other plans found plans')
  (hCorresponding : Corresponding planner planner' other)
  (hReference : Reference (planner.setting catalog stats selectivities) visit planner.joins plans)
  (hFollows : Follows (planner.setting catalog stats selectivities)
    (planner'.setting catalog stats selectivities) planner.joins other plans)

include h hCorresponding hReference hFollows

theorem AsGood.sameEstimates : SameEstimates planner.joins other plans plans' := by
  refine forall_sets_of_within (R := fun best best' => best'.map Plan.estimate =
    best.map Plan.estimate) rfl hReference.searched h.searched hReference.nodup
      hCorresponding.perm hFollows.injective fun listed listed' hWithin hWithin' hListed => ?_
  have hAgree := h.agree listed listed' hWithin hWithin' hListed
  generalize plans.get? ⟨listed⟩ = best at hAgree ⊢
  generalize plans'.get? ⟨listed'⟩ = best' at hAgree ⊢
  cases hAgree with
  | none => rfl
  | some hPlans =>
    rw [Option.map_some, Option.map_some, Plan.estimate, Plan.estimate, hPlans.cost,
      hPlans.cardinality]

theorem AsGood.samePlans (hFor' : planner'.IsFor predicates') (hVisit' : ∀ l, (visit' l).Perm l)
    (hSame : ∀ p : Predicate, p.SameCondition (other p))
    (hUntied : ∀ members, Within planner.joins planner.joins.length members →
      (planner.setting catalog stats selectivities).Untied plans.get? ⟨members⟩) :
    SamePlans planner.joins other plans plans' :=
  forall_sets_of_within (R := fun best best' => best' = best.map (Plan.renamed other)) rfl
    hReference.searched h.searched hReference.nodup hCorresponding.perm hFollows.injective
    fun _ _ hWithin hWithin' hListed => h.searched.get?_eq_renamed hReference hFollows
      (hCorresponding.sameReadings catalog stats selectivities) hSame hFor'.distinct.nodup
      hVisit' hUntied hWithin hWithin' hListed

end Results

/-- The second run returns an order, or the tuples of a join of the first run are uncounted. -/
theorem ensures_second_order (hFor' : planner'.IsFor predicates')
    (hVisit' : ∀ l, (visit' l).Perm l) (h : Corresponding planner planner' other)
    (hJoins : planner.joins ≠ [])
    (hFind : (planner.findPlans visit catalog stats selectivities).outcome = .ok plans)
    {plan : Plan} (hPlan : plans.get? ⟨planner.joins⟩ = some plan)
    (hReference : Reference (planner.setting catalog stats selectivities) visit planner.joins
      plans)
    (hFollows : Follows (planner.setting catalog stats selectivities)
      (planner'.setting catalog stats selectivities) planner.joins other plans) :
    (planner'.order visit' catalog stats selectivities explained').2.outcome.Ensures
      (Uncounted (planner.setting catalog stats selectivities) planner.joins plans)
      fun found' => ∃ plans',
        (planner'.order visit' catalog stats selectivities explained').1.last.plans =
          some plans' ∧
        AsGood planner planner' visit' catalog stats selectivities other plans found' plans' := by
  have hChecks := (findPlans_eq_ok_iff.mp hFind).1
  have hJoins' := h.joins_ne_nil hJoins
  have hSearch := ensures_search_agrees hReference hFollows h.perm hVisit' planner'.verbose
    fun members hWithin p hp previous o hLast hBound =>
      ensures_uncounted hChecks hWithin hp hLast hBound
  rw [order_eq_run hFor' hVisit', order_last_plans]
  cases hFind' : (planner'.findPlans visit' catalog stats selectivities).outcome with
  | error e =>
    rw [(run_of_error hJoins' hFind').2]
    rw [outcome_findPlans, h.checkInputs hChecks] at hFind'
    exact .error (hSearch.of_eq_error hFind')
  | ok plans' =>
    obtain ⟨hPlans', hRun⟩ := run_of_ok hJoins' hFind'
    obtain ⟨hSearched', hAgree⟩ := hSearch.of_eq_ok (findPlans_eq_ok_iff.mp hFind').2
    -- the plan of all joins is as good as that of the first run, so there is one
    have hAll := hAgree _ _ (within_all hJoins) (within_all hJoins') h.perm
    rw [hPlan] at hAll
    cases hPlan' : plans'.get? ⟨planner'.joins⟩ with
    | none =>
      rw [hPlan'] at hAll
      cases hAll
    | some plan' =>
      obtain ⟨scans, hScans⟩ := exists_scansOf hSearched' hVisit'
      rw [hRun, plans'.get?_ofList fun p => Iff.rfl, hPlan', hScans]
      exact .ok ⟨plans', hPlans', hSearched', hAgree, plan', hPlan', rfl⟩

/-- The table of a run that returns an order is finished. -/
theorem searched_of_order (hFor : planner.IsFor predicates) (hVisit : ∀ l, (visit l).Perm l)
    (hOrder : (planner.order visit catalog stats selectivities explained).2.outcome = .ok found)
    (hPlans : (planner.order visit catalog stats selectivities explained).1.last.plans =
      some plans) :
    Searched (planner.setting catalog stats selectivities) visit planner.joins
      planner.joins.length plans := by
  rcases order_cases hOrder with ⟨hNil, -, hEmpty⟩ | ⟨-, plans', plan, hFind, hPlans', -⟩
  · obtain rfl := Option.some.inj (hEmpty.symm.trans hPlans)
    rw [hNil]
    exact FoundUpTo.start.searched
  · obtain rfl := Option.some.inj (hPlans'.symm.trans hPlans)
    exact searched_of_findPlans hFor hVisit hFind

/-- What a second run leaves behind: plans as good as those of the first one, or the same ones. -/
structure Repeats (planner : Planner) (s : Setting) (other : Predicate → Predicate)
    (plans : PlanTable) (found : List Predicate) (plans' : PlanTable) (found' : List Predicate) :
    Prop where
  estimates : SameEstimates planner.joins other plans plans'
  /-- If no set has two cheapest joins and the joins are the same conditions, so are the plans. -/
  untied : (∀ p : Predicate, p.SameCondition (other p)) →
    (∀ members, Within planner.joins planner.joins.length members →
      s.Untied plans.get? ⟨members⟩) →
    SamePlans planner.joins other plans plans' ∧ found' = found.map other

/--
After a run that returns an order, a second run whose joins follow those of the first one
repeats it, or it stops where the tuples of a join of the first run are uncounted. Then the
first run would have stopped as well, if it had tried the joins in another sequence.
-/
theorem order_repeats (hFor : planner.IsFor predicates) (hFor' : planner'.IsFor predicates')
    (h : Corresponding planner planner' other) (hVisit : ∀ l, (visit l).Perm l)
    (hVisit' : ∀ l, (visit' l).Perm l)
    (hOrder : (planner.order visit catalog stats selectivities explained).2.outcome = .ok found)
    (hPlans : (planner.order visit catalog stats selectivities explained).1.last.plans =
      some plans)
    (hComparable : ∀ members, Within planner.joins planner.joins.length members →
      (planner.setting catalog stats selectivities).Comparable plans.get? ⟨members⟩)
    (hCards : ∀ members, Within planner.joins planner.joins.length members →
      (planner.setting catalog stats selectivities).SameCards plans.get? ⟨members⟩)
    (hFollows : planner.checkInputs catalog stats selectivities = .ok () →
      Follows (planner.setting catalog stats selectivities)
        (planner'.setting catalog stats selectivities) planner.joins other plans) :
    (planner'.order visit' catalog stats selectivities explained').2.outcome.Ensures
      (fun e => Uncounted (planner.setting catalog stats selectivities) planner.joins plans e ∧
        ¬ planner.Returns catalog stats selectivities explained)
      fun found' => ∃ plans',
        (planner'.order visit' catalog stats selectivities explained').1.last.plans =
          some plans' ∧
        Repeats planner (planner.setting catalog stats selectivities) other plans found plans'
          found' := by
  rcases order_cases hOrder with
    ⟨hNil, rfl, hEmpty⟩ | ⟨hNe, plans₁, plan, hFind, hPlans₁, hPlan, rfl⟩
  · obtain rfl := Option.some.inj (hEmpty.symm.trans hPlans)
    have hNil' : planner'.joins = [] := by simpa [hNil] using h.perm
    obtain ⟨hPlans', hRun⟩ := run_of_nil hNil' visit' catalog stats selectivities
    rw [order_eq_run hFor' hVisit', hRun, order_last_plans]
    exact .ok ⟨.empty, hPlans', fun _ _ => rfl, fun _ _ => ⟨fun _ _ => rfl, rfl⟩⟩
  · obtain rfl := Option.some.inj (hPlans₁.symm.trans hPlans)
    rw [plans₁.get?_ofList fun p => Iff.rfl] at hPlan
    have hChecks := (findPlans_eq_ok_iff.mp hFind).1
    have hReference := reference_of_findPlans hFor hVisit hFind hComparable hCards
    refine ((ensures_second_order hFor' hVisit' h hNe hFind hPlan hReference
      (hFollows hChecks)).weaken fun e hUncounted => ⟨hUncounted, fun hReturns =>
        hReturns.not_uncounted hFor hChecks hReference e hUncounted⟩).mono ?_
    rintro found' - ⟨plans', hPlans', hAsGood⟩
    refine ⟨plans', hPlans', hAsGood.sameEstimates h hReference (hFollows hChecks),
      fun hSame hUntied => ?_⟩
    have hSamePlans :=
      hAsGood.samePlans h hReference (hFollows hChecks) hFor' hVisit' hSame hUntied
    exact ⟨hSamePlans, hAsGood.order_eq h hSamePlans hPlan⟩

end Planner

end JoinPlanner
