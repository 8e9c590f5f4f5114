import JoinPlanner.Proofs.Search.CostKinds
import JoinPlanner.Proofs.Search.Known
import JoinPlanner.Proofs.Search.Levels
import JoinPlanner.Proofs.Search.Ties

/-!
# JoinPlanner — searches that agree

Two searches are compared whose joins correspond, perhaps in another sequence, and that may
try the joins of a set in different sequences. If every join extends a plan of the one as its
counterpart extends an equally good plan of the other, their plans are equally good: a set
keeps what its cheapest joins make, and these correspond.

* `LooksAlike`  — what a search sees of two plans is the same.
* `Counterpart` — two last joins cost the same and produce equally many tuples.
* `Follows`     — joins extend plans like their counterparts.
* `Reference`   — a finished search whose plans do not depend on the sequence of trials.
* `Agree`       — two plans are equally good.
* `Searched.exists_cardinality` — a search that tries a join first has counted its tuples.
* `ensures_search_agrees` — the other search finds a plan that is as good for each set, unless
  it fails where the tuples of some join of the first search cannot be counted.
-/

namespace JoinPlanner

open Outcome Setting

-- ---------------------------------------------------------------------------
-- Plans and joins that correspond
-- ---------------------------------------------------------------------------

/-- The number of tuples that an oriented join produces. -/
def Setting.cardinalityOf (s : Setting) (o : Oriented) : Outcome Cardinality :=
  s.joinCardinality o.join o.left.cardinality o.right.cardinality o.left.key o.right.key

/-- The plans are the same inputs of a next join, and the same tables can be joined with them. -/
inductive LooksAlike (s s' : Setting) : Option Plan → Option Plan → Prop
  | start : LooksAlike s s' none none
  | plans {plan plan' : Plan} (input : s'.planInput plan' = s.planInput plan)
      (tables : ∀ table, joinsTable plan'.order table = joinsTable plan.order table) :
      LooksAlike s s' (some plan) (some plan')

/-- The joins cost the same and produce equally many tuples. -/
structure Counterpart (s s' : Setting) (o o' : Oriented) : Prop where
  cost : o'.cost = o.cost
  cardinality : s'.cardinalityOf o' = s.cardinalityOf o

/-- Each last join of the first search has a counterpart, which extends a plan that looks alike as
the join extends its plan. -/
structure Follows (s s' : Setting) (joins : List Predicate) (other : Predicate → Predicate)
    (plans : PlanTable) : Prop where
  injective : ∀ p ∈ joins, ∀ q ∈ joins, other p = other q → p = q
  tables : ∀ p ∈ joins, ∀ table, table ∈ (other p).tables ↔ table ∈ p.tables
  keys : ∀ p ∈ joins, ∀ q q' : Predicate, q.SameJoin p → q'.SameJoin (other p) →
    s'.hasKey [q'] = s.hasKey [q]
  candidate : ∀ members, Within joins joins.length members → ∀ p ∈ members, ∀ previous previous' o,
    s.LastJoin plans.get? ⟨members⟩ p previous o → LooksAlike s s' previous previous' →
      (∀ plan, previous = some plan → PlanFor plan (members.erase p)) →
        ∃ o', s'.Candidate previous' (other p) o' ∧ Counterpart s s' o o'

/-- Two plans are equally good. It matters for plans of proper subsets only whether they have a
key; those can be looked up. -/
structure Agree (s s' : Setting) (proper : Prop) (plan plan' : Plan) : Prop where
  cost : plan'.cost = plan.cost
  cardinality : plan'.cardinality = plan.cardinality
  key : proper → ∃ key, s.hasKey plan.order = .ok key ∧ s'.hasKey plan'.order = .ok key

theorem rel_of_proper {s s' : Setting} {proper : Prop} {best best' : Option Plan}
    (h : Option.Rel (Agree s s' proper) best best') (hProper : proper) :
    Option.Rel (Agree s s' True) best best' := by
  cases h with
  | none => exact .none
  | some hAgree => exact .some ⟨hAgree.cost, hAgree.cardinality, fun _ => hAgree.key hProper⟩

section Plans

variable {s s' : Setting} {joins members members' : List Predicate}
  {other : Predicate → Predicate} {plans : PlanTable} {plan plan' : Plan}

/-- Orders of joins that correspond join the same tables. -/
theorem Follows.joinsTable_eq (h : Follows s s' joins other plans)
    (hJoins : ∀ p ∈ members, p ∈ joins)
    (hPerm : members'.Perm (members.map other)) (hPlan : Executes plan.order members)
    (hPlan' : Executes plan'.order members') (table : Option String) :
    joinsTable plan'.order table = joinsTable plan.order table := by
  rw [Bool.eq_iff_iff, joinsTable_iff, joinsTable_iff]
  constructor
  · rintro ⟨q', hq', a, rfl, hMem⟩
    obtain ⟨p', hp', hSame'⟩ := exists_sameJoin_of_mem hPlan' hq'
    obtain ⟨p, hp, rfl⟩ := List.mem_map.mp (hPerm.mem_iff.mp hp')
    obtain ⟨q, hq, hSame⟩ := exists_mem_of_executes hPlan hp
    refine ⟨q, hq, a, rfl, hSame.mem_tables_iff.mpr ?_⟩
    exact (h.tables p (hJoins p hp) _).mp (hSame'.mem_tables_iff.mp hMem)
  · rintro ⟨q, hq, a, rfl, hMem⟩
    obtain ⟨p, hp, hSame⟩ := exists_sameJoin_of_mem hPlan hq
    obtain ⟨q', hq', hSame'⟩ :=
      exists_mem_of_executes hPlan' (hPerm.mem_iff.mpr (List.mem_map_of_mem hp))
    refine ⟨q', hq', a, rfl, hSame'.mem_tables_iff.mpr ?_⟩
    exact (h.tables p (hJoins p hp) _).mpr (hSame.mem_tables_iff.mp hMem)

/-- Plans that are equally good look alike. -/
theorem Follows.looksAlike (h : Follows s s' joins other plans) (hJoins : ∀ p ∈ members, p ∈ joins)
    (hPerm : members'.Perm (members.map other)) (hPlan : Executes plan.order members)
    (hPlan' : Executes plan'.order members') (hAgree : Agree s s' True plan plan') :
    LooksAlike s s' (some plan) (some plan') := by
  obtain ⟨key, hKey, hKey'⟩ := hAgree.key trivial
  refine .plans ?_ (h.joinsTable_eq hJoins hPerm hPlan hPlan')
  rw [planInput, planInput, hKey, hKey', hAgree.cost, hAgree.cardinality]

/-- Orientations of one join have a key or not alike. -/
theorem Follows.hasKey_eq (h : Follows s s' joins other plans) {r q t : Predicate} (hr : r ∈ joins)
    (hq : q.SameJoin r) (ht : t.SameJoin r) : s.hasKey [q] = s.hasKey [t] :=
  (h.keys r hr q _ hq (.refl _)).symm.trans (h.keys r hr t _ ht (.refl _))

end Plans

-- ---------------------------------------------------------------------------
-- The first search
-- ---------------------------------------------------------------------------

/-- A finished search whose plans are as good as they are in whatever sequence joins are tried. -/
structure Reference (s : Setting) (visit : Visit) (joins : List Predicate) (plans : PlanTable) :
    Prop where
  searched : Searched s visit joins joins.length plans
  nodup : joins.Nodup
  visits : ∀ l, (visit l).Perm l
  /-- Plans that are extended can be looked up. -/
  keys : ∀ members, Within joins joins.length members → members.length < joins.length →
    ∀ plan, plans.get? ⟨members⟩ = some plan → ∃ key, s.hasKey plan.order = .ok key
  comparable : ∀ members, Within joins joins.length members → s.Comparable plans.get? ⟨members⟩
  sameCards : ∀ members, Within joins joins.length members → s.SameCards plans.get? ⟨members⟩

namespace Reference

variable {s : Setting} {visit : Visit} {joins members : List Predicate} {plans : PlanTable}
  {p q : Predicate} {previous previous' : Option Plan} {o o' : Oriented}

theorem cheapestOf (h : Reference s visit joins plans)
    (hWithin : Within joins joins.length members) :
    s.CheapestOf plans.get? ⟨members⟩ (visit members) (plans.get? ⟨members⟩) :=
  cheapestOf_of_bestPlan (hWithin.nodup h.nodup) h.visits (h.comparable members hWithin)
    (h.searched.cell members hWithin)

/-- Two cheapest joins of a set cost the same. -/
theorem cost_eq_of_cheapest (h : Reference s visit joins plans)
    (hWithin : Within joins joins.length members)
    (hp : s.Cheapest plans.get? ⟨members⟩ p previous o)
    (hq : s.Cheapest plans.get? ⟨members⟩ q previous' o') : o.cost = o'.cost := by
  by_cases hpq : p = q
  · subst hpq
    rw [(hp.last.unique hq.last).2]
  · have hComparable := h.comparable members hWithin
    exact h.searched.eq_cost_of_tie h.nodup h.visits hWithin hp.mem hq.mem hp.last hq.last
      (hComparable p hp.mem q hq.mem hpq _ _ _ _ hp.last hq.last)
      (hComparable q hq.mem p hp.mem (Ne.symm hpq) _ _ _ _ hq.last hp.last)
      (hq.least p hp.mem _ _ hp.last) (hp.least q hq.mem _ _ hq.last)

end Reference

-- ---------------------------------------------------------------------------
-- One set
-- ---------------------------------------------------------------------------

/-- Without a join and its counterpart the counterparts are those of the other joins. -/
theorem perm_erase_map {members members' : List Predicate} {other : Predicate → Predicate}
    {p : Predicate} (hPerm : members'.Perm (members.map other)) (hp : p ∈ members) :
    other p ∈ members' ∧ (members'.erase (other p)).Perm ((members.erase p).map other) := by
  have hSplit : members'.Perm (other p :: (members.erase p).map other) :=
    hPerm.trans ((List.perm_cons_erase hp).map other)
  obtain ⟨hMem, hErase⟩ := List.cons_perm_iff_perm_erase.mp hSplit.symm
  exact ⟨hMem, hErase.symm⟩

/-- A set of the first search and the set of the counterparts, whose rests have plans that are
equally good. -/
structure Corresponds (s s' : Setting) (joins : List Predicate) (other : Predicate → Predicate)
    (plans : PlanTable) (known' : JoinSet → Option Plan) (members members' : List Predicate) :
    Prop where
  within : Within joins joins.length members
  nodup : members'.Nodup
  perm : members'.Perm (members.map other)
  rest : ∀ p ∈ members, members.erase p ≠ [] → Option.Rel (Agree s s' True)
    (plans.get? ⟨members.erase p⟩) (known' ⟨members'.erase (other p)⟩)
  planFor : ∀ p ∈ members, members.erase p ≠ [] → ∀ plan',
    known' ⟨members'.erase (other p)⟩ = some plan' → PlanFor plan' (members'.erase (other p))

namespace Corresponds

variable {s s' : Setting} {visit visit' : Visit} {joins members members' : List Predicate}
  {other : Predicate → Predicate} {plans : PlanTable} {known' : JoinSet → Option Plan}
  {p p' : Predicate} {previous previous' : Option Plan} {o o' : Oriented}

theorem mem_joins (h : Corresponds s s' joins other plans known' members members')
    (hp : p ∈ members) : p ∈ joins :=
  h.within.sublist.subset hp

theorem exists_mem (h : Corresponds s s' joins other plans known' members members')
    (hp : p' ∈ members') : ∃ p ∈ members, other p = p' :=
  List.mem_map.mp (h.perm.mem_iff.mp hp)

theorem other_mem (h : Corresponds s s' joins other plans known' members members')
    (hp : p ∈ members) : other p ∈ members' :=
  h.perm.mem_iff.mpr (List.mem_map_of_mem hp)

/-- The other joins of corresponding sets correspond. -/
theorem erase_perm (h : Corresponds s s' joins other plans known' members members')
    (hp : p ∈ members) :
    (members'.erase (other p)).Perm ((members.erase p).map other) :=
  (perm_erase_map h.perm hp).2

theorem erase_eq_nil_iff (h : Corresponds s s' joins other plans known' members members')
    (hp : p ∈ members) : members'.erase (other p) = [] ↔ members.erase p = [] := by
  have hLength := (h.erase_perm hp).length_eq
  rw [List.length_map] at hLength
  rw [← List.length_eq_zero_iff, hLength, List.length_eq_zero_iff]

/-- A join and its counterpart extend no plan, or plans that are equally good. -/
theorem previous_cases (h : Corresponds s s' joins other plans known' members members')
    (hReference : Reference s visit joins plans) (hp : p ∈ members) :
    (members.erase p = [] ∧ previousOf? plans.get? ⟨members⟩ p = some none ∧
      previousOf? known' ⟨members'⟩ (other p) = some none) ∨
    (previousOf? plans.get? ⟨members⟩ p = none ∧
      previousOf? known' ⟨members'⟩ (other p) = none) ∨
    ∃ before before', previousOf? plans.get? ⟨members⟩ p = some (some before) ∧
      previousOf? known' ⟨members'⟩ (other p) = some (some before') ∧
      Agree s s' True before before' ∧ PlanFor before (members.erase p) ∧
      PlanFor before' (members'.erase (other p)) := by
  rw [previousOf?_eq (h.within.nodup hReference.nodup), previousOf?_eq h.nodup]
  by_cases hRest : members.erase p = []
  · rw [if_pos hRest, if_pos ((h.erase_eq_nil_iff hp).mpr hRest)]
    exact Or.inl ⟨hRest, rfl, rfl⟩
  · rw [if_neg hRest, if_neg (mt (h.erase_eq_nil_iff hp).mp hRest)]
    have hErase := (h.within.mono (Nat.le_succ _)).erase hp hRest
    cases hKept : plans.get? ⟨members.erase p⟩ with
    | none =>
      have hRel := h.rest p hp hRest
      rw [hKept] at hRel
      cases hKept' : known' ⟨members'.erase (other p)⟩ with
      | none => exact Or.inr (Or.inl ⟨rfl, rfl⟩)
      | some before' =>
        rw [hKept'] at hRel
        cases hRel
    | some before =>
      have hRel := h.rest p hp hRest
      rw [hKept] at hRel
      cases hKept' : known' ⟨members'.erase (other p)⟩ with
      | none =>
        rw [hKept'] at hRel
        cases hRel
      | some before' =>
        rw [hKept'] at hRel
        cases hRel with
        | some hAgree =>
          exact Or.inr (Or.inr ⟨before, before', rfl, rfl, hAgree,
            hReference.searched.planFor hReference.nodup hReference.visits hErase hKept,
            h.planFor p hp hRest before' hKept'⟩)

/-- Being the last join of its set carries over to the counterpart. -/
theorem exists_lastJoin (h : Corresponds s s' joins other plans known' members members')
    (hReference : Reference s visit joins plans) (hFollows : Follows s s' joins other plans)
    (hp : p ∈ members) (hLast : s.LastJoin plans.get? ⟨members⟩ p previous o) :
    ∃ previous' o', s'.LastJoin known' ⟨members'⟩ (other p) previous' o' ∧
      Counterpart s s' o o' := by
  rcases h.previous_cases hReference hp with ⟨-, hFirst, hFirst'⟩ | ⟨hNone, -⟩ |
    ⟨before, before', hBefore, hBefore', hAgree, hPlan, hPlan'⟩
  · obtain rfl : none = previous := Option.some.inj (hFirst.symm.trans hLast.rest)
    obtain ⟨o', hNext, hCounterpart⟩ := hFollows.candidate members h.within p hp none none o hLast
      .start fun _ hSome => by cases hSome
    exact ⟨none, o', ⟨hFirst', hNext⟩, hCounterpart⟩
  · cases hNone.symm.trans hLast.rest
  · obtain rfl : some before = previous := Option.some.inj (hBefore.symm.trans hLast.rest)
    have hAlike := hFollows.looksAlike (fun q hq => h.mem_joins (List.mem_of_mem_erase hq))
      (h.erase_perm hp) hPlan.executes hPlan'.executes hAgree
    obtain ⟨o', hNext, hCounterpart⟩ := hFollows.candidate members h.within p hp _ _ o hLast hAlike
      fun plan hSome => Option.some.inj hSome ▸ hPlan
    exact ⟨some before', o', ⟨hBefore', hNext⟩, hCounterpart⟩

/-- The second search estimates nothing that the first one has not. -/
theorem exists_counterpart (h : Corresponds s s' joins other plans known' members members')
    (hReference : Reference s visit joins plans) (hFollows : Follows s s' joins other plans)
    (hp : p ∈ members) (hPrevious : previousOf? known' ⟨members'⟩ (other p) = some previous')
    (hTouches : ∀ plan', previous' = some plan' → (other p).Touches plan'.order) :
    ∃ previous o, s.LastJoin plans.get? ⟨members⟩ p previous o ∧
      ∃ o', s'.LastJoin known' ⟨members'⟩ (other p) previous' o' ∧ Counterpart s s' o o' := by
  have hVisited : p ∈ visit members := (hReference.visits members).mem_iff.mpr hp
  have hBest := hReference.searched.bestOf h.within
  -- the join touches the plan that it extends in the first search
  have hEstimated : ∃ previous o, s.LastJoin plans.get? ⟨members⟩ p previous o := by
    rcases h.previous_cases hReference hp with ⟨-, hFirst, -⟩ | ⟨-, hNone⟩ |
      ⟨before, before', hBefore, hBefore', -, hPlan, hPlan'⟩
    · obtain ⟨o, hLast⟩ := hBest.estimated p hVisited none hFirst fun _ hSome => by cases hSome
      exact ⟨none, o, hLast⟩
    · cases hNone.symm.trans hPrevious
    · obtain rfl : some before' = previous' := Option.some.inj (hBefore'.symm.trans hPrevious)
      obtain ⟨q', hq', table, hTable, hShared⟩ := hTouches before' rfl
      obtain ⟨r', hr', hSame'⟩ := exists_sameJoin_of_mem hPlan'.executes hq'
      obtain ⟨r, hr, rfl⟩ := List.mem_map.mp ((h.erase_perm hp).mem_iff.mp hr')
      obtain ⟨q, hq, hSame⟩ := exists_mem_of_executes hPlan.executes hr
      have hrJoins := h.mem_joins (List.mem_of_mem_erase hr)
      obtain ⟨o, hLast⟩ := hBest.estimated p hVisited (some before) hBefore fun plan hPlan => by
        obtain rfl := Option.some.inj hPlan
        exact ⟨q, hq, table, (hFollows.tables p (h.mem_joins hp) _).mp hTable,
          hSame.mem_tables_iff.mpr
            ((hFollows.tables r hrJoins _).mp (hSame'.mem_tables_iff.mp hShared))⟩
      exact ⟨some before, o, hLast⟩
  obtain ⟨previous, o, hLast⟩ := hEstimated
  obtain ⟨previous'', o', hLast', hCounterpart⟩ := h.exists_lastJoin hReference hFollows hp hLast
  obtain rfl := Option.some.inj (hPrevious.symm.trans hLast'.rest)
  exact ⟨previous, o, hLast, o', hLast', hCounterpart⟩

/-- The last joins of the second search are counterparts. -/
theorem lastJoin_cases (h : Corresponds s s' joins other plans known' members members')
    (hReference : Reference s visit joins plans) (hFollows : Follows s s' joins other plans)
    (hp : p' ∈ members') (hLast : s'.LastJoin known' ⟨members'⟩ p' previous' o') :
    ∃ p ∈ members, other p = p' ∧ ∃ previous o,
      s.LastJoin plans.get? ⟨members⟩ p previous o ∧ Counterpart s s' o o' := by
  obtain ⟨p, hMem, rfl⟩ := h.exists_mem hp
  obtain ⟨previous, o, hFirst, o'', hSecond, hCounterpart⟩ :=
    h.exists_counterpart hReference hFollows hMem hLast.rest fun plan' hPlan => by
      subst hPlan
      obtain ⟨l, r, hInputs, -⟩ := hLast.next
      exact hInputs.touches
  obtain ⟨-, rfl⟩ := hLast.unique hSecond
  exact ⟨p, hMem, rfl, previous, o, hFirst, hCounterpart⟩

/-- The costs of the second search can be compared like those of the first one. -/
theorem comparable (h : Corresponds s s' joins other plans known' members members')
    (hReference : Reference s visit joins plans) (hFollows : Follows s s' joins other plans) :
    s'.Comparable known' ⟨members'⟩ := by
  intro p' hp' q' hq' hNe previous previous' o₁ o₂ hLast hLast'
  obtain ⟨p, hp, rfl, _, o, hFirst, hCounterpart⟩ :=
    h.lastJoin_cases hReference hFollows hp' hLast
  obtain ⟨q, hq, rfl, _, _, hSecond, -⟩ := h.lastJoin_cases hReference hFollows hq' hLast'
  rw [hCounterpart.cost]
  exact hReference.comparable members h.within p hp q hq (fun hSame => hNe (congrArg other hSame))
    _ _ _ _ hFirst hSecond

/-- A cheapest join of the second search is the counterpart of one of the first search. -/
theorem exists_cheapest (h : Corresponds s s' joins other plans known' members members')
    (hReference : Reference s visit joins plans) (hFollows : Follows s s' joins other plans)
    (hCheapest : s'.Cheapest known' ⟨members'⟩ p' previous' o') :
    ∃ p previous o, other p = p' ∧ s.Cheapest plans.get? ⟨members⟩ p previous o ∧
      Counterpart s s' o o' := by
  obtain ⟨p, hp, rfl, previous, o, hLast, hCounterpart⟩ :=
    h.lastJoin_cases hReference hFollows hCheapest.mem hCheapest.last
  refine ⟨p, previous, o, rfl, ⟨hp, hLast, fun q hq before last hOther => ?_⟩, hCounterpart⟩
  obtain ⟨before', last', hOther', hSame⟩ := h.exists_lastJoin hReference hFollows hq hOther
  rw [← hCounterpart.cost, ← hSame.cost]
  exact hCheapest.least (other q) (h.other_mem hq) before' last' hOther'

/-- The second search of the set fails only where the tuples of a last join of the first one
cannot be counted. -/
theorem ensures_bestPlan (h : Corresponds s s' joins other plans known' members members')
    (hReference : Reference s visit joins plans) (hFollows : Follows s s' joins other plans)
    (hVisit' : ∀ l, (visit' l).Perm l) {E : PlannerError → Prop}
    (hErrors : ∀ p ∈ members, ∀ previous o, s.LastJoin plans.get? ⟨members⟩ p previous o →
      unbounded.le o.cost = false → (s.cardinalityOf o).Ensures E fun _ => True) :
    (s'.bestPlan visit' known' ⟨members'⟩).Ensures E fun _ => True := by
  refine (ensures_cheapestOf h.nodup hVisit' (h.comparable hReference hFollows)
    fun p' hp' bound previous' hPrevious hBelow => ?_).mono fun _ _ _ => trivial
  obtain ⟨p, hp, rfl⟩ := h.exists_mem hp'
  by_cases hTouches : ∀ plan', previous' = some plan' → (other p).Touches plan'.order
  · obtain ⟨previous, o, hLast, o', hLast', hCounterpart⟩ :=
      h.exists_counterpart hReference hFollows hp hPrevious hTouches
    rw [extendBelow_of_candidate hLast'.next]
    split
    · exact .ok trivial
    · rename_i hBound
      have hUnreached : unbounded.le o.cost = false :=
        hCounterpart.cost ▸ hBelow o' hLast' (Bool.eq_false_iff.mpr hBound)
      have hCount : (s'.cardinalityOf o').Ensures E fun _ => True :=
        hCounterpart.cardinality ▸ hErrors p hp previous o hLast hUnreached
      have hComplete : (s'.complete previous' o').Ensures E fun _ => True :=
        ensures_bind hCount fun _ _ _ => .ok trivial
      exact ensures_bind hComplete fun _ _ _ => .ok trivial
  · simp only [not_forall] at hTouches
    obtain ⟨plan', hPlan, hNot⟩ := hTouches
    exact extendBelow_eq_none_iff.mpr (Or.inl ⟨plan', hPlan, hNot⟩) ▸ .ok trivial

-- ---------------------------------------------------------------------------
-- The keys of a set
-- ---------------------------------------------------------------------------

/-- Whether the plan that was extended has a key follows from the joins of the first plan. -/
theorem exists_key_of_rest (h : Corresponds s s' joins other plans known' members members')
    (hReference : Reference s visit joins plans) (hFollows : Follows s s' joins other plans)
    {plan : Plan} (hExecutes : Executes plan.order members) (hp : p ∈ members)
    (hPrevious : previousOf? known' ⟨members'⟩ (other p) = some previous') :
    ∃ key, s'.hasKey (orderOf previous') = .ok key ∧
      (key = true ↔ ∃ r ∈ members.erase p, ∃ q ∈ plan.order, q.SameJoin r ∧
        s.hasKey [q] = .ok true) := by
  rcases h.previous_cases hReference hp with ⟨hRest, -, hFirst'⟩ | ⟨-, hNone'⟩ |
    ⟨before, before', -, hBefore', hAgree, hPlan, -⟩
  · obtain rfl : none = previous' := Option.some.inj (hFirst'.symm.trans hPrevious)
    refine ⟨false, rfl, ?_⟩
    simp [hRest]
  · cases hNone'.symm.trans hPrevious
  · obtain rfl : some before' = previous' := Option.some.inj (hBefore'.symm.trans hPrevious)
    obtain ⟨key, hKey, hKey'⟩ := hAgree.key trivial
    refine ⟨key, hKey', (hasKey_eq_true_iff hKey).trans ?_⟩
    have hJoins : ∀ r ∈ members.erase p, r ∈ members ∧ r ∈ joins := fun r hr =>
      ⟨List.mem_of_mem_erase hr, h.mem_joins (List.mem_of_mem_erase hr)⟩
    constructor
    · rintro ⟨t, ht, hTrue⟩
      obtain ⟨r, hr, hSame⟩ := exists_sameJoin_of_mem hPlan.executes ht
      obtain ⟨q, hq, hSame'⟩ := exists_mem_of_executes hExecutes (hJoins r hr).1
      exact ⟨r, hr, q, hq, hSame', (hFollows.hasKey_eq (hJoins r hr).2 hSame' hSame).trans hTrue⟩
    · rintro ⟨r, hr, q, hq, hSame, hTrue⟩
      obtain ⟨t, ht, hSame'⟩ := exists_mem_of_executes hPlan.executes hr
      exact ⟨t, ht, (hFollows.hasKey_eq (hJoins r hr).2 hSame' hSame).trans hTrue⟩

/-- The plan of the second search has a key exactly if that of the first one has. -/
theorem hasKey_complete (h : Corresponds s s' joins other plans known' members members')
    (hReference : Reference s visit joins plans) (hFollows : Follows s s' joins other plans)
    {plan : Plan} (hExecutes : Executes plan.order members) {key : Bool}
    (hKey : s.hasKey plan.order = .ok key) (hp : p ∈ members)
    (hLast' : s'.LastJoin known' ⟨members'⟩ (other p) previous' o') :
    s'.hasKey (orderOf previous' ++ [o'.join]) = .ok key := by
  obtain ⟨restKey, hRest, hIff⟩ :=
    h.exists_key_of_rest hReference hFollows hExecutes hp hLast'.rest
  obtain ⟨q, hq, hSame⟩ := exists_mem_of_executes hExecutes hp
  have hLast : s'.hasKey [o'.join] = s.hasKey [q] :=
    hFollows.keys p (h.mem_joins hp) q _ hSame hLast'.next.sameJoin
  rw [hasKey_append, hRest]
  cases restKey with
  | true =>
    obtain ⟨_, -, t, ht, -, hTrue⟩ := hIff.mp rfl
    rw [(hasKey_eq_true_iff hKey).mpr ⟨t, ht, hTrue⟩]
    rfl
  | false =>
    show s'.hasKey [o'.join] = .ok key
    rw [hLast]
    cases key with
    | false => exact hasKey_eq_false_iff.mp hKey q hq
    | true =>
      -- a join with a key is the last one, because none of the rest has one
      obtain ⟨t, ht, hTrue⟩ := (hasKey_eq_true_iff hKey).mp rfl
      obtain ⟨r, hr, hSame'⟩ := exists_sameJoin_of_mem hExecutes ht
      by_cases hrp : r = p
      · subst hrp
        exact (hFollows.hasKey_eq (h.mem_joins hp) hSame hSame').trans hTrue
      · have hErase : r ∈ members.erase p := (List.mem_erase_of_ne hrp).mpr hr
        cases hIff.mpr ⟨r, hErase, t, ht, hSame', hTrue⟩

/-- The plan that the second search finds for the set is as good as that of the first one. -/
theorem agree (h : Corresponds s s' joins other plans known' members members')
    (hReference : Reference s visit joins plans) (hFollows : Follows s s' joins other plans)
    (hVisit' : ∀ l, (visit' l).Perm l) {best' : Option Plan}
    (hBest : s'.bestPlan visit' known' ⟨members'⟩ = .ok best') :
    Option.Rel (Agree s s' (members.length < joins.length)) (plans.get? ⟨members⟩) best' := by
  have hFirst := hReference.cheapestOf h.within
  have hSecond := cheapestOf_of_bestPlan h.nodup hVisit' (h.comparable hReference hFollows) hBest
  cases hKept : plans.get? ⟨members⟩ with
  | none =>
    rw [hKept] at hFirst
    cases best' with
    | none => exact .none
    | some plan' =>
      obtain ⟨p', previous', o', hCheapest, -, hBelow⟩ := hSecond.exists_cheapest hVisit'
      obtain ⟨p, hp, -, previous, o, hLast, hCounterpart⟩ :=
        h.lastJoin_cases hReference hFollows hCheapest.mem hCheapest.last
      rw [hCounterpart.cost, hFirst.reached hReference.visits hp hLast] at hBelow
      cases hBelow
  | some plan =>
    rw [hKept] at hFirst
    obtain ⟨p, previous, o, hCheapest, hComplete, hBelow⟩ :=
      hFirst.exists_cheapest hReference.visits
    cases best' with
    | none =>
      obtain ⟨previous', o', hLast', hCounterpart⟩ :=
        h.exists_lastJoin hReference hFollows hCheapest.mem hCheapest.last
      rw [← hCounterpart.cost,
        hSecond.reached hVisit' (h.other_mem hCheapest.mem) hLast'] at hBelow
      cases hBelow
    | some plan' =>
      obtain ⟨p', previous', o', hCheapest', hComplete', -⟩ := hSecond.exists_cheapest hVisit'
      obtain ⟨q, before, last, rfl, hOther, hCounterpart⟩ :=
        h.exists_cheapest hReference hFollows hCheapest'
      have hCost := hReference.cost_eq_of_cheapest h.within hCheapest hOther
      obtain ⟨card', hCard', rfl⟩ := complete_eq_ok_iff.mp hComplete'
      have hCards := hReference.sameCards members h.within _ _ _ _ _ _ hCheapest hOther plan
        ⟨last.cost, card', orderOf before ++ [last.join]⟩ hComplete
        (complete_eq_ok_iff.mpr ⟨card', hCounterpart.cardinality.symm.trans hCard', rfl⟩)
      have hPlan := hReference.searched.planFor hReference.nodup hReference.visits h.within hKept
      obtain ⟨card, -, rfl⟩ := complete_eq_ok_iff.mp hComplete
      refine .some ⟨hCounterpart.cost.trans hCost.symm, hCards.symm, fun hProper => ?_⟩
      obtain ⟨key, hKey⟩ := hReference.keys members h.within hProper _ hKept
      exact ⟨key, hKey, h.hasKey_complete hReference hFollows hPlan.executes hKey hOther.mem
        hCheapest'.last⟩

end Corresponds

-- ---------------------------------------------------------------------------
-- All sets
-- ---------------------------------------------------------------------------

/-- The sets up to a size have plans that are as good as those of the first search. -/
def AgreeUpTo (s s' : Setting) (joins : List Predicate) (other : Predicate → Predicate)
    (plans : PlanTable) (joins' : List Predicate) (size : Nat) (plans' : PlanTable) : Prop :=
  ∀ members members', Within joins joins.length members → Within joins' size members' →
    members'.Perm (members.map other) →
      Option.Rel (Agree s s' (members.length < joins.length)) (plans.get? ⟨members⟩)
        (plans'.get? ⟨members'⟩)

section Searches

variable {s s' : Setting} {visit visit' : Visit} {joins joins' members' : List Predicate}
  {other : Predicate → Predicate} {plans plans' : PlanTable} {size size' : Nat}

/-- The counterparts of joins stay apart. -/
theorem nodup_counterparts (hNodup : joins.Nodup)
    (hInjective : ∀ p ∈ joins, ∀ q ∈ joins, other p = other q → p = q)
    (hPerm : joins'.Perm (joins.map other)) : joins'.Nodup :=
  hPerm.nodup_iff.mpr ((List.nodup_map_iff_inj_on hNodup).mpr hInjective)

/-- A set of counterparts is that of a set of the first search. -/
theorem exists_within_of_perm (hNodup : joins.Nodup)
    (hInjective : ∀ p ∈ joins, ∀ q ∈ joins, other p = other q → p = q)
    (hPerm : joins'.Perm (joins.map other)) (hWithin : Within joins' size members') :
    ∃ members, Within joins joins.length members ∧ members'.Perm (members.map other) := by
  have hNodup' := nodup_counterparts hNodup hInjective hPerm
  have hSublist : (joins.filter fun p => decide (other p ∈ members')).Sublist joins :=
    List.filter_sublist
  have hMapped : members'.Perm ((joins.filter fun p => decide (other p ∈ members')).map other) := by
    have hInjective' : ∀ p ∈ joins.filter (fun p => decide (other p ∈ members')),
        ∀ q ∈ joins.filter (fun p => decide (other p ∈ members')), other p = other q → p = q :=
      fun p hp q hq => hInjective p (hSublist.subset hp) q (hSublist.subset hq)
    refine (List.perm_ext_iff_of_nodup (hWithin.nodup hNodup')
      ((List.nodup_map_iff_inj_on (hSublist.nodup hNodup)).mpr hInjective')).mpr fun p' => ?_
    simp only [List.mem_map, List.mem_filter, decide_eq_true_eq]
    constructor
    · intro hp'
      obtain ⟨p, hp, rfl⟩ := List.mem_map.mp (hPerm.mem_iff.mp (hWithin.sublist.subset hp'))
      exact ⟨p, ⟨hp, hp'⟩, rfl⟩
    · rintro ⟨p, ⟨-, hp'⟩, rfl⟩
      exact hp'
  refine ⟨_, ⟨hSublist, fun hEmpty => hWithin.nonempty ?_, hSublist.length_le⟩, hMapped⟩
  rw [hEmpty] at hMapped
  exact hMapped.eq_nil

/-- The counterparts of a set are a set of the second search. -/
theorem exists_within_map (hNodup : joins.Nodup)
    (hInjective : ∀ p ∈ joins, ∀ q ∈ joins, other p = other q → p = q)
    (hPerm : joins'.Perm (joins.map other)) {members : List Predicate}
    (hWithin : Within joins size members) :
    ∃ members', Within joins' joins'.length members' ∧ members'.Perm (members.map other) := by
  have hNodup' := nodup_counterparts hNodup hInjective hPerm
  have hMapped : (members.map other).Nodup :=
    (List.nodup_map_iff_inj_on (hWithin.nodup hNodup)).mpr fun p hp q hq =>
      hInjective p (hWithin.sublist.subset hp) q (hWithin.sublist.subset hq)
  obtain ⟨members', hWithin', hMembers⟩ := exists_within_perm hNodup' hMapped
    (mt List.map_eq_nil_iff.mp hWithin.nonempty) fun q hq => by
      obtain ⟨p, hp, rfl⟩ := List.mem_map.mp hq
      exact hPerm.mem_iff.mpr (List.mem_map_of_mem (hWithin.sublist.subset hp))
  exact ⟨members', hWithin', hMembers.symm⟩

/-- If the smaller sets agree, a set corresponds to one of the first search. -/
theorem Searched.corresponds (h' : Searched s' visit' joins' size' plans')
    (hNodup' : joins'.Nodup) (hVisit' : ∀ l, (visit' l).Perm l)
    (hAgree : AgreeUpTo s s' joins other plans joins' size plans') (hSize : size ≤ size')
    {members : List Predicate} (hWithin : Within joins joins.length members)
    (hWithin' : Within joins' (size + 1) members') (hPerm : members'.Perm (members.map other)) :
    Corresponds s s' joins other plans plans'.get? members members' := by
  have hErased : ∀ p ∈ members, members.erase p ≠ [] →
      (members'.erase (other p)).Perm ((members.erase p).map other) ∧
        Within joins' size (members'.erase (other p)) := by
    intro p hp hRest
    obtain ⟨hMem, hErase⟩ := perm_erase_map hPerm hp
    refine ⟨hErase, hWithin'.erase hMem fun hEmpty => hRest ?_⟩
    rw [hEmpty] at hErase
    exact List.map_eq_nil_iff.mp hErase.symm.eq_nil
  refine ⟨hWithin, hWithin'.nodup hNodup', hPerm, fun p hp hRest => ?_, fun p hp hRest plan' => ?_⟩
  · obtain ⟨hErase, hSmaller⟩ := hErased p hp hRest
    have hShort : (members.erase p).length < joins.length := by
      have hLength := List.length_erase_of_mem hp
      have hPos := List.length_pos_of_mem hp
      have hLe := hWithin.length_le
      omega
    exact rel_of_proper (hAgree _ _ ((hWithin.mono (Nat.le_succ _)).erase hp hRest) hSmaller
      hErase) hShort
  · obtain ⟨-, hSmaller⟩ := hErased p hp hRest
    exact h'.planFor hNodup' hVisit' (hSmaller.mono hSize)

/-- A finished table agrees with the first search on all of its sets. -/
theorem Searched.agree (h' : Searched s' visit' joins' size' plans')
    (hReference : Reference s visit joins plans) (hFollows : Follows s s' joins other plans)
    (hNodup' : joins'.Nodup) (hVisit' : ∀ l, (visit' l).Perm l) :
    AgreeUpTo s s' joins other plans joins' size' plans' := by
  -- the sets are gone through by size
  have hUpTo : ∀ size ≤ size', AgreeUpTo s s' joins other plans joins' size plans' := by
    intro size
    induction size with
    | zero =>
      intro _ members members' _ hWithin'
      exact absurd (List.length_eq_zero_iff.mp (Nat.le_zero.mp hWithin'.length_le))
        hWithin'.nonempty
    | succ size ih =>
      intro hSize members members' hWithin hWithin' hPerm
      have hCorresponds := h'.corresponds hNodup' hVisit' (ih (Nat.le_of_succ_le hSize))
        (Nat.le_of_succ_le hSize) hWithin hWithin' hPerm
      exact hCorresponds.agree hReference hFollows hVisit' (h'.cell members' (hWithin'.mono hSize))
  exact hUpTo size' (Nat.le_refl _)

/-- If the second search tries the counterpart of a join first, it has counted its tuples. -/
theorem Searched.exists_cardinality (hReference : Reference s visit joins plans)
    (hFollows : Follows s s' joins other plans) (hPerm : joins'.Perm (joins.map other))
    (hVisit' : ∀ l, (visit' l).Perm l)
    (h' : Searched s' visit' joins' joins'.length plans') {members : List Predicate}
    (hWithin : Within joins joins.length members) {p : Predicate} (hp : p ∈ members)
    (hFirst : ∀ l, other p ∈ l → ∃ rest, visit' l = other p :: rest) {previous : Option Plan}
    {o : Oriented} (hLast : s.LastJoin plans.get? ⟨members⟩ p previous o)
    (hBound : unbounded.le o.cost = false) : ∃ card, s.cardinalityOf o = .ok card := by
  have hNodup' := nodup_counterparts hReference.nodup hFollows.injective hPerm
  obtain ⟨members', hWithin', hMembers⟩ :=
    exists_within_map hReference.nodup hFollows.injective hPerm hWithin
  have hCorresponds := h'.corresponds hNodup' hVisit'
    (h'.agree hReference hFollows hNodup' hVisit') (Nat.le_refl _) hWithin
    (hWithin'.mono (Nat.le_succ _)) hMembers
  obtain ⟨previous', o', hLast', hCounterpart⟩ :=
    hCorresponds.exists_lastJoin hReference hFollows hp hLast
  obtain ⟨rest, hRest⟩ := hFirst members' (hCorresponds.other_mem hp)
  obtain ⟨plan', hComplete⟩ := exists_complete_of_first (h'.cell members' hWithin') hRest hLast'
    (hCounterpart.cost ▸ hBound)
  obtain ⟨card, hCard, -⟩ := complete_eq_ok_iff.mp hComplete
  exact ⟨card, hCounterpart.cardinality.symm.trans hCard⟩

/--
The search for the counterparts of joins finds equally good plans. It fails only where the
tuples that some join produces in the first search cannot be counted.
-/
theorem ensures_search_agrees (hReference : Reference s visit joins plans)
    (hFollows : Follows s s' joins other plans) (hPerm : joins'.Perm (joins.map other))
    (hVisit' : ∀ l, (visit' l).Perm l) (verbose : Bool) {E : PlannerError → Prop}
    (hErrors : ∀ members, Within joins joins.length members → ∀ p ∈ members, ∀ previous o,
      s.LastJoin plans.get? ⟨members⟩ p previous o → unbounded.le o.cost = false →
        (s.cardinalityOf o).Ensures E fun _ => True) :
    (s'.search visit' verbose joins').outcome.Ensures E fun plans' =>
      Searched s' visit' joins' joins'.length plans' ∧
        AgreeUpTo s s' joins other plans joins' joins'.length plans' := by
  have hNodup' := nodup_counterparts hReference.nodup hFollows.injective hPerm
  refine (ensures_search_of_bestPlan hNodup' hVisit' verbose
    fun size plans' h' hSize members' hWithin' => ?_).mono fun plans' _ h' =>
      ⟨h', h'.agree hReference hFollows hNodup' hVisit'⟩
  obtain ⟨members, hWithin, hMembers⟩ :=
    exists_within_of_perm hReference.nodup hFollows.injective hPerm hWithin'
  have hCorresponds := h'.corresponds hNodup' hVisit'
    (h'.agree hReference hFollows hNodup' hVisit') (Nat.le_refl size) hWithin hWithin' hMembers
  exact hCorresponds.ensures_bestPlan hReference hFollows hVisit' (hErrors members hWithin)

end Searches

end JoinPlanner
