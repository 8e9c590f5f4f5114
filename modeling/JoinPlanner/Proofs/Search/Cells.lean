import JoinPlanner.Proofs.Linked
import JoinPlanner.Proofs.Lookup
import JoinPlanner.Proofs.Search.BestPlan
import JoinPlanner.Proofs.Subsets
import Mathlib.Data.List.Sublists

/-!
# JoinPlanner — the cells of a plan table

A finished plan table answers for every set up to some size what the search of that set
answers, given the table itself. Everything else about the table follows from this.

* `Within`            — a set of at most so many of the joins, as a search lists it.
* `previousOf?_eq`    — the plan that a last join extends is that of the other joins.
* `PlanFor`           — the plan executes the joins of a set without a cross product.
* `Searched`          — the table is finished up to a size.
* `Searched.planFor`  — its plans are left-deep orders of their sets.
* `Searched.exists_plan_iff_linked` — if costs are finite, exactly the linked sets have a
  plan: the last step of a left-deep order is a candidate.
-/

namespace JoinPlanner

open Outcome

-- ---------------------------------------------------------------------------
-- Sets of joins
-- ---------------------------------------------------------------------------

/-- Some of the joins, at most so many, in the order in which they were given. -/
structure Within (joins : List Predicate) (size : Nat) (members : List Predicate) : Prop where
  sublist : members.Sublist joins
  nonempty : members ≠ []
  length_le : members.length ≤ size

namespace Within

variable {joins members : List Predicate} {size : Nat} {p : Predicate}

theorem mono {larger : Nat} (h : Within joins size members) (hSize : size ≤ larger) :
    Within joins larger members :=
  ⟨h.sublist, h.nonempty, Nat.le_trans h.length_le hSize⟩

theorem nodup (h : Within joins size members) (hNodup : joins.Nodup) : members.Nodup :=
  h.sublist.nodup hNodup

/-- The other joins of a set are fewer. -/
theorem erase (h : Within joins (size + 1) members) (hp : p ∈ members)
    (hRest : members.erase p ≠ []) : Within joins size (members.erase p) := by
  refine ⟨List.erase_sublist.trans h.sublist, hRest, ?_⟩
  have hLength := List.length_erase_of_mem hp
  have hLe := h.length_le
  omega

end Within

/-- What is asked of all sets can be decided set by set. -/
instance {joins : List Predicate} {size : Nat} {P : List Predicate → Prop} [DecidablePred P] :
    Decidable (∀ members, Within joins size members → P members) :=
  decidable_of_iff (∀ members ∈ joins.sublists, members ≠ [] → members.length ≤ size → P members) <|
    by
      constructor
      · intro h members hWithin
        exact h members (List.mem_sublists.mpr hWithin.sublist) hWithin.nonempty hWithin.length_le
      · intro h members hMem hNe hLe
        exact h members ⟨List.mem_sublists.mp hMem, hNe, hLe⟩

theorem within_all {joins : List Predicate} (hNe : joins ≠ []) :
    Within joins joins.length joins :=
  ⟨List.Sublist.refl _, hNe, Nat.le_refl _⟩

/-- Any joins, as a search lists them. -/
theorem exists_within {joins order : List Predicate} (hNe : order ≠ [])
    (hSubset : ∀ p ∈ order, p ∈ joins) :
    ∃ members, Within joins joins.length members ∧ ∀ p, p ∈ order ↔ p ∈ members := by
  obtain ⟨members, hSublist, hSame⟩ := exists_sublist hSubset
  refine ⟨members, ⟨hSublist, ?_, hSublist.length_le⟩, fun p => (hSame p).symm⟩
  obtain ⟨p, hp⟩ := List.exists_mem_of_ne_nil order hNe
  exact List.ne_nil_of_mem ((hSame p).mpr hp)

/-- An order holds its joins in another sequence than a search lists them. -/
theorem exists_within_perm {joins order : List Predicate} (hNodup : joins.Nodup)
    (hOrder : order.Nodup) (hNe : order ≠ []) (hSubset : ∀ p ∈ order, p ∈ joins) :
    ∃ members, Within joins joins.length members ∧ order.Perm members := by
  obtain ⟨members, hWithin, hSame⟩ := exists_within hNe hSubset
  exact ⟨members, hWithin, (List.perm_ext_iff_of_nodup hOrder (hWithin.nodup hNodup)).mpr hSame⟩

theorem PlanTable.get?_ofList (plans : PlanTable) {members listed : List Predicate}
    (h : ∀ p, p ∈ members ↔ p ∈ listed) :
    plans.get? (JoinSet.ofList members) = plans.get? ⟨listed⟩ := by
  refine Association.get?_congr _ (JoinSet.beq_iff.mpr fun p => ?_)
  rw [JoinSet.mem_ofList]
  exact h p

/-- The plan of some joins does not depend on their sequence. -/
theorem PlanTable.get?_ofList_perm (plans : PlanTable) {members others : List Predicate}
    (h : members.Perm others) :
    plans.get? (JoinSet.ofList members) = plans.get? (JoinSet.ofList others) := by
  rw [plans.get?_ofList fun p => h.mem_iff, plans.get?_ofList fun p => Iff.rfl]

/-- The plan that a last join extends does not depend on how a set is listed. -/
theorem PlanTable.previousOf?_congr (plans : PlanTable) {set other : JoinSet} (h : set == other)
    (p : Predicate) :
    Setting.previousOf? plans.get? set p = Setting.previousOf? plans.get? other p := by
  have hMem : ∀ q, q ∈ (set.without p).members ↔ q ∈ (other.without p).members := by
    intro q
    rw [JoinSet.mem_without, JoinSet.mem_without, JoinSet.beq_iff.mp h q]
  have hEmpty : (set.without p).members.isEmpty = (other.without p).members.isEmpty := by
    rw [Bool.eq_iff_iff, List.isEmpty_iff, List.isEmpty_iff, List.eq_nil_iff_forall_not_mem,
      List.eq_nil_iff_forall_not_mem]
    exact forall_congr' fun q => not_congr (hMem q)
  have hGet : plans.get? (set.without p) = plans.get? (other.without p) :=
    Association.get?_congr _ (JoinSet.beq_iff.mpr hMem)
  rw [Setting.previousOf?, Setting.previousOf?, hEmpty, hGet]

theorem members_without {members : List Predicate} (hNodup : members.Nodup) (p : Predicate) :
    ((⟨members⟩ : JoinSet).without p).members = members.erase p :=
  (hNodup.erase_eq_filter p).symm

namespace Setting

variable {s : Setting} {known : JoinSet → Option Plan} {members : List Predicate} {p : Predicate}
  {previous : Option Plan} {o : Oriented} {plan : Plan}

/-- A last join extends the plan of the others, or no plan if it is the only one. -/
theorem previousOf?_eq (hNodup : members.Nodup) (p : Predicate) :
    previousOf? known ⟨members⟩ p =
      if members.erase p = [] then some none else (known ⟨members.erase p⟩).map some := by
  have hRest : (⟨members⟩ : JoinSet).without p = ⟨members.erase p⟩ :=
    congrArg JoinSet.mk (members_without hNodup p)
  rw [previousOf?, hRest]
  simp only [List.isEmpty_iff]

theorem previousOf?_cases (hNodup : members.Nodup)
    (h : previousOf? known ⟨members⟩ p = some previous) :
    (members.erase p = [] ∧ previous = none) ∨
      ∃ plan, members.erase p ≠ [] ∧ known ⟨members.erase p⟩ = some plan ∧
        previous = some plan := by
  rw [previousOf?_eq hNodup] at h
  split at h
  · exact Or.inl ⟨‹_›, (Option.some.inj h).symm⟩
  · obtain ⟨plan, hPlan, hSome⟩ := Option.map_eq_some_iff.mp h
    exact Or.inr ⟨plan, ‹_›, hPlan, hSome.symm⟩

-- ---------------------------------------------------------------------------
-- Plans of sets
-- ---------------------------------------------------------------------------

/-- The plan executes the joins of a set without a cross product. -/
structure PlanFor (plan : Plan) (members : List Predicate) : Prop where
  executes : Executes plan.order members
  leftDeep : LeftDeep plan.order

/-- A last join after a plan of the others makes a plan of the set. -/
theorem LastJoin.planFor (hLast : s.LastJoin known ⟨members⟩ p previous o)
    (hNodup : members.Nodup) (hp : p ∈ members)
    (hRest : ∀ plan, members.erase p ≠ [] → known ⟨members.erase p⟩ = some plan →
      PlanFor plan (members.erase p))
    (hComplete : s.complete previous o = .ok plan) : PlanFor plan members := by
  obtain ⟨card, -, rfl⟩ := complete_eq_ok_iff.mp hComplete
  -- what was executed before the last join
  have hBefore : Executes (orderOf previous) (members.erase p) ∧ LeftDeep (orderOf previous) := by
    rcases previousOf?_cases hNodup hLast.rest with ⟨hEmpty, rfl⟩ | ⟨plan, hNe, hPlan, rfl⟩
    · rw [hEmpty]
      exact ⟨executes_nil, leftDeep_nil⟩
    · have hPlanFor := hRest plan hNe hPlan
      exact ⟨hPlanFor.executes, hPlanFor.leftDeep⟩
  refine ⟨executes_concat hBefore.1 hLast.next.sameJoin (List.perm_cons_erase hp).symm, ?_⟩
  refine leftDeep_concat.mpr ⟨hBefore.2, fun hOrder => ?_⟩
  obtain ⟨q, hq, table, hTable, hShared⟩ := hLast.next.touches hOrder
  exact ⟨q, hq, table, hLast.next.sameJoin.mem_tables_iff.mpr hTable, hShared⟩

end Setting

-- ---------------------------------------------------------------------------
-- Finished tables
-- ---------------------------------------------------------------------------

open Setting

/-- The table has the plan of every set up to a size, and of no other. -/
structure Searched (s : Setting) (visit : Visit) (joins : List Predicate) (size : Nat)
    (plans : PlanTable) : Prop where
  sets : ∀ e ∈ plans.entries, Within joins size e.1.members
  entry : ∀ e ∈ plans.entries, plans.get? e.1 = some e.2
  /-- The plan of a set is the best one that extends a plan of the table. -/
  cell : ∀ members, Within joins size members →
    s.bestPlan visit plans.get? ⟨members⟩ = .ok (plans.get? ⟨members⟩)

/-- The costs of all candidates of all sets are finite. -/
def FiniteCosts (s : Setting) (joins : List Predicate) (size : Nat) (plans : PlanTable) : Prop :=
  ∀ members, Within joins size members → s.FiniteTrials plans.get? ⟨members⟩ members

instance (s : Setting) (joins : List Predicate) (size : Nat) (plans : PlanTable) :
    Decidable (FiniteCosts s joins size plans) :=
  inferInstanceAs (Decidable (∀ members, Within joins size members →
    s.FiniteTrials plans.get? ⟨members⟩ members))

namespace Searched

variable {s : Setting} {visit : Visit} {joins members : List Predicate} {size : Nat}
  {plans : PlanTable} {plan : Plan}

theorem bestOf (h : Searched s visit joins size plans) (hWithin : Within joins size members) :
    s.BestOf plans.get? ⟨members⟩ (visit members) (plans.get? ⟨members⟩) :=
  bestOf_of_bestPlan (h.cell members hWithin)

/-- Every plan of the table is a left-deep order of its set. -/
theorem planFor (h : Searched s visit joins size plans) (hNodup : joins.Nodup)
    (hVisit : ∀ l, (visit l).Perm l) (hWithin : Within joins size members)
    (hPlan : plans.get? ⟨members⟩ = some plan) : PlanFor plan members := by
  induction hLength : members.length generalizing members plan with
  | zero => exact absurd (List.length_eq_zero_iff.mp hLength) hWithin.nonempty
  | succ length ih =>
    obtain ⟨p, hp, previous, o, hLast, hComplete⟩ := (h.bestOf hWithin).attained plan hPlan
    have hMem : p ∈ members := (hVisit members).mem_iff.mp hp
    refine hLast.planFor (hWithin.nodup hNodup) hMem (fun rest hRest hGet => ?_) hComplete
    have hErase := (hWithin.mono (Nat.le_succ size)).erase hMem hRest
    refine ih hErase hGet ?_
    rw [List.length_erase_of_mem hMem, hLength]
    rfl

-- ---------------------------------------------------------------------------
-- Sets with a plan
-- ---------------------------------------------------------------------------

/-- A join that touches the plan of the others makes a plan of the set. -/
theorem exists_plan_of_touches (h : Searched s visit joins size plans)
    (hVisit : ∀ l, (visit l).Perm l) (hFinite : FiniteCosts s joins size plans)
    (hWithin : Within joins size members) {p : Predicate} (hp : p ∈ members)
    (previous : Option Plan) (hPrevious : previousOf? plans.get? ⟨members⟩ p = some previous)
    (hTouches : ∀ plan, previous = some plan → p.Touches plan.order) :
    ∃ plan, plans.get? ⟨members⟩ = some plan := by
  have hBest := h.bestOf hWithin
  have hTried : p ∈ visit members := (hVisit members).mem_iff.mpr hp
  have hTrials : s.FiniteTrials plans.get? ⟨members⟩ (visit members) :=
    (hFinite members hWithin).mono fun q hq => (hVisit members).mem_iff.mp hq
  obtain ⟨o, hLast⟩ := hBest.estimated p hTried previous hPrevious hTouches
  obtain ⟨plan, hPlan, -⟩ := hBest.least hTrials p hTried previous o hLast
  exact ⟨plan, hPlan⟩

/-- A set with a left-deep order has a plan. -/
theorem exists_plan_of_leftDeep (h : Searched s visit joins size plans) (hNodup : joins.Nodup)
    (hVisit : ∀ l, (visit l).Perm l) (hFinite : FiniteCosts s joins size plans)
    {order : List Predicate} (hDeep : LeftDeep order) (hPerm : order.Perm members)
    (hWithin : Within joins size members) : ∃ plan, plans.get? ⟨members⟩ = some plan := by
  -- the plan of the order without its last join is extended by that join
  induction order using List.reverseRecOn generalizing members with
  | nil => exact absurd hPerm.nil_eq.symm hWithin.nonempty
  | append_singleton order p ih =>
    obtain ⟨hOrder, hTouches⟩ := leftDeep_concat.mp hDeep
    have hCons : (p :: order).Perm members :=
      (List.perm_append_singleton p order).symm.trans hPerm
    obtain ⟨hp, hErase⟩ := List.cons_perm_iff_perm_erase.mp hCons
    by_cases hRest : members.erase p = []
    · refine h.exists_plan_of_touches hVisit hFinite hWithin hp none ?_ ?_
      · rw [previousOf?_eq (hWithin.nodup hNodup), if_pos hRest]
      · intro plan hPlan
        cases hPlan
    · have hWithin' := (hWithin.mono (Nat.le_succ size)).erase hp hRest
      obtain ⟨plan, hPlan⟩ := ih hOrder hErase hWithin'
      have hPlanFor := h.planFor hNodup hVisit hWithin' hPlan
      have hOrderNe : order ≠ [] := by
        rintro rfl
        exact hRest hErase.nil_eq.symm
      refine h.exists_plan_of_touches hVisit hFinite hWithin hp (some plan) ?_ ?_
      · rw [previousOf?_eq (hWithin.nodup hNodup), if_neg hRest, hPlan, Option.map_some]
      · intro plan' hSome
        obtain rfl := Option.some.inj hSome
        rw [touches_iff_of_executes hPlanFor.executes,
          ← touches_iff_of_executes (executes_of_perm hErase)]
        exact hTouches hOrderNe

/-- The sets with a plan are those whose tables are linked. -/
theorem exists_plan_iff_linked (h : Searched s visit joins size plans) (hNodup : joins.Nodup)
    (hVisit : ∀ l, (visit l).Perm l) (hFinite : FiniteCosts s joins size plans)
    (hNamed : ∀ p ∈ joins, p.Named) (hWithin : Within joins size members) :
    (∃ plan, plans.get? ⟨members⟩ = some plan) ↔ Linked members := by
  constructor
  · rintro ⟨plan, hPlan⟩
    have hPlanFor := h.planFor hNodup hVisit hWithin hPlan
    exact (linked_iff_of_executes hPlanFor.executes).mp (linked_of_leftDeep hPlanFor.leftDeep)
  · intro hLinked
    obtain ⟨order, hPerm, hDeep⟩ :=
      exists_leftDeep_of_linked (fun p hp => hNamed p (hWithin.sublist.subset hp)) hLinked
    exact h.exists_plan_of_leftDeep hNodup hVisit hFinite hDeep hPerm hWithin

end Searched

end JoinPlanner
