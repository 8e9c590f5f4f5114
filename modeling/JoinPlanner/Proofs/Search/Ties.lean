import JoinPlanner.Proofs.Search.BestPlan

/-!
# JoinPlanner — the cheapest joins of a set

The plan of a set depends on the sequence in which its joins are tried as the last one only
as far as several of them are the cheapest. Without undefined costs the plan that is kept
ends with one of the cheapest joins, whatever the sequence; if there is only one, the plan
is that one.

* `Cheapest`   — a last join of a set that no other undercuts.
* `Comparable` — no cost is undefined, unless there is no other to compare it with.
* `CheapestOf` — the best plan after some trials, if costs can be compared.
* `ensures_cheapestOf` — the plan of a set ends with a cheapest join.
* `SameCards`, `Untied` — the cheapest joins produce equally many tuples, or there is one only.
-/

namespace JoinPlanner.Setting

open Outcome Quantity

variable {s : Setting} {known : JoinSet → Option Plan} {set : JoinSet} {p q : Predicate}
  {previous previous' : Option Plan} {o o' : Oriented} {plan : Plan}

-- ---------------------------------------------------------------------------
-- Cheapest joins
-- ---------------------------------------------------------------------------

/-- The join as the last one of its set, as it is worked out. -/
def lastJoin? (s : Setting) (known : JoinSet → Option Plan) (set : JoinSet) (p : Predicate) :
    Option (Option Plan × Oriented) :=
  (previousOf? known set p).bind fun previous => (s.oriented? previous p).map (previous, ·)

theorem lastJoin_iff :
    s.LastJoin known set p previous o ↔ s.lastJoin? known set p = some (previous, o) := by
  simp only [lastJoin?, Option.bind_eq_some_iff, Option.map_eq_some_iff, Prod.mk.injEq]
  constructor
  · intro h
    exact ⟨previous, h.rest, o, candidate_iff_oriented?.mp h.next, rfl, rfl⟩
  · rintro ⟨_, hRest, _, hNext, rfl, rfl⟩
    exact ⟨hRest, candidate_iff_oriented?.mpr hNext⟩

/-- The join can be the last one of its set, and no other one is cheaper. -/
structure Cheapest (s : Setting) (known : JoinSet → Option Plan) (set : JoinSet) (p : Predicate)
    (previous : Option Plan) (o : Oriented) : Prop where
  mem : p ∈ set.members
  last : s.LastJoin known set p previous o
  least : ∀ q ∈ set.members, ∀ previous' o', s.LastJoin known set q previous' o' →
    o'.cost.lt o.cost = false

/-- The costs of different last joins can be compared. -/
def Comparable (s : Setting) (known : JoinSet → Option Plan) (set : JoinSet) : Prop :=
  ∀ p ∈ set.members, ∀ q ∈ set.members, p ≠ q → ∀ previous previous' o o',
    s.LastJoin known set p previous o → s.LastJoin known set q previous' o' → o.cost.Defined

/-- No cost of a last join is undefined. -/
def DefinedTrials (s : Setting) (known : JoinSet → Option Plan) (set : JoinSet) : Prop :=
  ∀ p ∈ set.members, ∀ previous o, s.LastJoin known set p previous o → o.cost.Defined

theorem DefinedTrials.comparable (h : s.DefinedTrials known set) : s.Comparable known set :=
  fun p hp _ _ _ previous _ o _ hLast _ => h p hp previous o hLast

/-- All cheapest joins of a set produce equally many tuples. -/
def SameCards (s : Setting) (known : JoinSet → Option Plan) (set : JoinSet) : Prop :=
  ∀ p previous o q previous' o', s.Cheapest known set p previous o →
    s.Cheapest known set q previous' o' → ∀ plan plan', s.complete previous o = .ok plan →
      s.complete previous' o' = .ok plan' → plan.cardinality = plan'.cardinality

/-- A set has no two cheapest joins. -/
def Untied (s : Setting) (known : JoinSet → Option Plan) (set : JoinSet) : Prop :=
  ∀ p previous o q previous' o', s.Cheapest known set p previous o →
    s.Cheapest known set q previous' o' → p = q

/-- A single cheapest join is as large as itself. -/
theorem Untied.sameCards (h : s.Untied known set) : s.SameCards known set := by
  intro p previous o q previous' o' hp hq plan plan' hPlan hPlan'
  obtain rfl := h p previous o q previous' o' hp hq
  obtain ⟨rfl, rfl⟩ := hp.last.unique hq.last
  rw [Except.ok.inj (hPlan.symm.trans hPlan')]

instance (p : Predicate) (previous : Option Plan) (o : Oriented) :
    Decidable (s.Cheapest known set p previous o) :=
  decidable_of_iff (p ∈ set.members ∧ s.lastJoin? known set p = some (previous, o) ∧
    ∀ q ∈ set.members, ∀ x ∈ s.lastJoin? known set q, x.2.cost.lt o.cost = false) <| by
      constructor
      · rintro ⟨hMem, hLast, hLeast⟩
        exact ⟨hMem, lastJoin_iff.mpr hLast, fun q hq previous' o' hLast' =>
          hLeast q hq (previous', o') (lastJoin_iff.mp hLast')⟩
      · intro h
        exact ⟨h.mem, lastJoin_iff.mp h.last, fun q hq x hx =>
          h.least q hq x.1 x.2 (lastJoin_iff.mpr hx)⟩

instance : Decidable (s.Untied known set) :=
  decidable_of_iff (∀ p ∈ set.members, ∀ q ∈ set.members, ∀ x ∈ s.lastJoin? known set p,
    ∀ y ∈ s.lastJoin? known set q, s.Cheapest known set p x.1 x.2 →
      s.Cheapest known set q y.1 y.2 → p = q) <| by
        constructor
        · intro h p previous o q previous' o' hp hq
          exact h p hp.mem q hq.mem _ (lastJoin_iff.mp hp.last) _ (lastJoin_iff.mp hq.last) hp hq
        · intro h p _ q _ x _ y _ hp hq
          exact h p x.1 x.2 q y.1 y.2 hp hq

instance : Decidable (s.SameCards known set) :=
  decidable_of_iff (∀ p ∈ set.members, ∀ q ∈ set.members, ∀ x ∈ s.lastJoin? known set p,
    ∀ y ∈ s.lastJoin? known set q, s.Cheapest known set p x.1 x.2 →
      s.Cheapest known set q y.1 y.2 → ∀ plan ∈ (s.complete x.1 x.2).toOption,
        ∀ plan' ∈ (s.complete y.1 y.2).toOption, plan.cardinality = plan'.cardinality) <| by
          have hOk : ∀ {x : Outcome Plan} {plan : Plan}, plan ∈ x.toOption ↔ x = .ok plan :=
            ⟨eq_ok_of_toOption, fun h => by rw [h]; rfl⟩
          simp only [hOk]
          constructor
          · intro h p previous o q previous' o' hp hq plan plan' hPlan hPlan'
            exact h p hp.mem q hq.mem _ (lastJoin_iff.mp hp.last) _ (lastJoin_iff.mp hq.last) hp hq
              plan hPlan plan' hPlan'
          · intro h p _ q _ x _ y _ hp hq plan hPlan plan' hPlan'
            exact h p x.1 x.2 q y.1 y.2 hp hq plan plan' hPlan hPlan'

/-- What the other joins of a set cost as the last one. -/
def rivals (s : Setting) (known : JoinSet → Option Plan) (set : JoinSet) (p : Predicate) :
    List Oriented :=
  (set.members.filter (· != p)).filterMap fun q => (s.lastJoin? known set q).map Prod.snd

theorem mem_rivals : o ∈ s.rivals known set p ↔
    ∃ q ∈ set.members, q ≠ p ∧ ∃ previous, s.LastJoin known set q previous o := by
  simp only [rivals, List.mem_filterMap, List.mem_filter, bne_iff_ne, Option.map_eq_some_iff,
    Prod.exists, exists_eq_right, lastJoin_iff, and_assoc]

/-- An undefined cost would be one of two cheapest ones, unless it were the only one. -/
theorem Untied.comparable (h : s.Untied known set) : s.Comparable known set := by
  intro p hp q hq hNe previous previous' o o' hLast hLast'
  by_contra hDefined
  have hNan : o.cost = .real .nan := Classical.not_not.mp hDefined
  have hFirst : s.Cheapest known set p previous o :=
    ⟨hp, hLast, fun _ _ _ _ _ => hNan ▸ not_lt_nan _⟩
  have hRivals : ∀ other ∈ s.rivals known set p, other.cost.Defined := by
    intro other hOther hOtherNan
    obtain ⟨r, hr, hrNe, before, hLast⟩ := mem_rivals.mp hOther
    refine hrNe (h r before other p previous o ⟨hr, hLast, fun _ _ _ _ _ => ?_⟩ hFirst)
    rw [hOtherNan]
    exact not_lt_nan _
  -- the cheapest of the others is not undercut by the undefined cost either
  have hMem : o' ∈ s.rivals known set p := mem_rivals.mpr ⟨q, hq, hNe.symm, previous', hLast'⟩
  obtain ⟨least, hLeast, hCheapest⟩ := exists_not_lt (List.ne_nil_of_mem hMem) hRivals
  obtain ⟨r, hr, hrNe, before, hOther⟩ := mem_rivals.mp hLeast
  refine hrNe (h r before least p previous o ⟨hr, hOther, fun t ht before' last hThird => ?_⟩
    hFirst)
  by_cases htp : t = p
  · subst htp
    obtain ⟨-, rfl⟩ := hLast.unique hThird
    rw [hNan]
    exact nan_not_lt _
  · exact hCheapest last (mem_rivals.mpr ⟨t, ht, htp, before', hThird⟩)

-- ---------------------------------------------------------------------------
-- Several trials
-- ---------------------------------------------------------------------------

/-- The best plan after some joins were tried, if costs can be compared. -/
structure CheapestOf (s : Setting) (known : JoinSet → Option Plan) (set : JoinSet)
    (tried : List Predicate) (best : Option Plan) : Prop where
  /-- There is none only if all costs have reached the bound that the search starts with. -/
  unreached : best = none → ∀ p ∈ tried, ∀ previous o, s.LastJoin known set p previous o →
    unbounded.le o.cost = true
  /-- It ends with a join that is below this bound and that no other undercuts. -/
  attained : ∀ plan, best = some plan → ∃ p ∈ tried, ∃ previous o,
    s.LastJoin known set p previous o ∧ s.complete previous o = .ok plan ∧
    unbounded.le o.cost = false ∧
    ∀ q ∈ tried, ∀ previous' o', s.LastJoin known set q previous' o' → o'.cost.lt o.cost = false

theorem cheapestOf_nil : s.CheapestOf known set [] none := by
  refine ⟨?_, ?_⟩
  · intro _ p hp
    cases hp
  · intro plan hPlan
    cases hPlan

/-- The plan that is replaced was not undercut before, so nothing undercuts its successor. -/
theorem CheapestOf.not_lt_of_replaced {tried : List Predicate} {best : Option Plan}
    (h : s.CheapestOf known set tried best) (hComparable : s.Comparable known set)
    (hSubset : ∀ q ∈ tried, q ∈ set.members) (hp : p ∈ set.members) (hNew : p ∉ tried)
    (hLast : s.LastJoin known set p previous o) (hBound : (boundOf best).le o.cost = false) :
    unbounded.le o.cost = false ∧
      ∀ q ∈ tried, ∀ previous' o', s.LastJoin known set q previous' o' →
        o'.cost.lt o.cost = false := by
  have hNe : ∀ q ∈ tried, q ≠ p := fun q hq hSame => hNew (hSame ▸ hq)
  cases best with
  | none =>
    refine ⟨hBound, fun q hq previous' o' hLast' => ?_⟩
    rw [eq_unbounded_of_le (h.unreached rfl q hq previous' o' hLast')]
    exact unbounded_not_lt o.cost
  | some plan =>
    obtain ⟨p₀, hp₀, previous₀, o₀, hLast₀, hComplete, -, hLeast⟩ := h.attained plan rfl
    obtain ⟨card, -, rfl⟩ := complete_eq_ok_iff.mp hComplete
    have hDefined := hComparable p hp p₀ (hSubset p₀ hp₀) (hNe p₀ hp₀).symm _ _ _ _ hLast hLast₀
    have hDefined₀ := hComparable p₀ (hSubset p₀ hp₀) p hp (hNe p₀ hp₀) _ _ _ _ hLast₀ hLast
    have hLt : o.cost.lt o₀.cost = true := lt_of_not_le hDefined₀ hDefined hBound
    refine ⟨?_, fun q hq previous' o' hLast' => ?_⟩
    · refine Bool.eq_false_iff.mpr fun hReached => ?_
      rw [eq_unbounded_of_le hReached, unbounded_not_lt] at hLt
      cases hLt
    · exact not_lt_of_lt (hComparable q (hSubset q hq) p hp (hNe q hq) _ _ _ _ hLast' hLast)
        hDefined₀ hDefined (hLeast q hq previous' o' hLast') hLt

/-- One more trial keeps the invariant. -/
theorem CheapestOf.step {tried : List Predicate} {best best' : Option Plan}
    (h : s.CheapestOf known set tried best) (hComparable : s.Comparable known set)
    (hSubset : ∀ q ∈ tried, q ∈ set.members) (hp : p ∈ set.members) (hNew : p ∉ tried)
    (hImprove : s.improve known set best p = .ok best') :
    s.CheapestOf known set (tried ++ [p]) best' := by
  -- a best plan that stays is the cheapest one, if the new join does not undercut it
  have hKept : (best = none → ∀ previous o, s.LastJoin known set p previous o →
        unbounded.le o.cost = true) →
      (∀ plan, best = some plan → ∀ previous o, s.LastJoin known set p previous o →
        plan.cost.le o.cost = true) → s.CheapestOf known set (tried ++ [p]) best := by
    intro hNone hSome
    refine ⟨fun hBest q hq previous o hLast => ?_, fun plan hPlan => ?_⟩
    · rcases List.mem_append.mp hq with hq | hq
      · exact h.unreached hBest q hq previous o hLast
      · obtain rfl := List.mem_singleton.mp hq
        exact hNone hBest previous o hLast
    · obtain ⟨p₀, hp₀, previous₀, o₀, hLast₀, hComplete, hBelow, hLeast⟩ := h.attained plan hPlan
      refine ⟨p₀, List.mem_append_left _ hp₀, previous₀, o₀, hLast₀, hComplete, hBelow, ?_⟩
      intro q hq previous o hLast
      rcases List.mem_append.mp hq with hq | hq
      · exact hLeast q hq previous o hLast
      · obtain rfl := List.mem_singleton.mp hq
        obtain ⟨card, -, rfl⟩ := complete_eq_ok_iff.mp hComplete
        exact not_lt_of_le (hSome _ hPlan previous o hLast)
  rcases improve_cases hImprove with ⟨rfl, hNone⟩ | ⟨rfl, previous, o, hLast, hBound⟩ |
    ⟨previous, o, plan, hLast, hBound, hComplete, rfl⟩
  · have hNot : ∀ previous o, ¬ s.LastJoin known set p previous o := by
      intro previous o hLast
      obtain ⟨plan, rfl, hTouches⟩ := hNone previous hLast.rest
      exact hTouches (by
        obtain ⟨l, r, hInputs, -⟩ := hLast.next
        exact hInputs.touches)
    exact hKept (fun _ previous o hLast => absurd hLast (hNot previous o))
      fun _ _ previous o hLast => absurd hLast (hNot previous o)
  · refine hKept (fun hBest previous' o' hLast' => ?_) fun plan hPlan previous' o' hLast' => ?_
    · obtain ⟨-, rfl⟩ := hLast.unique hLast'
      rw [hBest] at hBound
      exact hBound
    · obtain ⟨-, rfl⟩ := hLast.unique hLast'
      rw [hPlan] at hBound
      exact hBound
  · obtain ⟨hBelow, hLeast⟩ := h.not_lt_of_replaced hComparable hSubset hp hNew hLast hBound
    refine ⟨fun hSome => (by cases hSome), fun plan' hPlan => ?_⟩
    obtain rfl := Option.some.inj hPlan
    refine ⟨p, by simp, previous, o, hLast, hComplete, hBelow, ?_⟩
    intro q hq previous' o' hLast'
    rcases List.mem_append.mp hq with hq | hq
    · exact hLeast q hq previous' o' hLast'
    · obtain rfl := List.mem_singleton.mp hq
      obtain ⟨-, rfl⟩ := hLast.unique hLast'
      exact lt_irrefl o.cost

-- ---------------------------------------------------------------------------
-- All trials
-- ---------------------------------------------------------------------------

/--
The plan of a set ends with one of its cheapest joins, if costs can be compared. Only an
extension can fail, and none that has reached the bound that the search starts with is counted.
-/
theorem ensures_cheapestOf {E : PlannerError → Prop} {visit : Visit} (hNodup : set.members.Nodup)
    (hVisit : ∀ l, (visit l).Perm l) (hComparable : s.Comparable known set)
    (h : ∀ p ∈ set.members, ∀ bound previous, previousOf? known set p = some previous →
      (∀ o, s.LastJoin known set p previous o → bound.le o.cost = false →
        unbounded.le o.cost = false) → (s.extendBelow bound previous p).Ensures E fun _ => True) :
    (s.bestPlan visit known set).Ensures E (s.CheapestOf known set (visit set.members)) := by
  have hOrder : (visit set.members).Nodup := (hVisit _).nodup_iff.mpr hNodup
  refine ensures_foldlM cheapestOf_nil fun done p rest best hSplit hDone => ?_
  have hMem : ∀ q ∈ visit set.members, q ∈ set.members := fun q hq => (hVisit _).mem_iff.mp hq
  rw [hSplit] at hOrder hMem
  have hTried : ∀ q ∈ done, q ∈ set.members := fun q hq => hMem q (List.mem_append_left _ hq)
  have hp : p ∈ set.members := hMem p (by simp)
  have hNew : p ∉ done := fun hp =>
    (List.nodup_append.mp hOrder).2.2 p hp p List.mem_cons_self rfl
  have hExtend : ∀ previous, previousOf? known set p = some previous →
      (s.extendBelow (boundOf best) previous p).Ensures E fun _ => True :=
    fun previous hPrevious => h p hp _ previous hPrevious fun o hLast hBound =>
      (hDone.not_lt_of_replaced hComparable hTried hp hNew hLast hBound).1
  exact (ensures_improve hExtend).mono fun best' hImprove _ =>
    hDone.step hComparable hTried hp hNew hImprove

theorem cheapestOf_of_bestPlan {visit : Visit} {best : Option Plan}
    (hNodup : set.members.Nodup) (hVisit : ∀ l, (visit l).Perm l)
    (hComparable : s.Comparable known set) (h : s.bestPlan visit known set = .ok best) :
    s.CheapestOf known set (visit set.members) best :=
  (ensures_cheapestOf hNodup hVisit hComparable fun _ _ _ _ _ _ =>
    ensures_any fun _ _ => trivial).of_eq_ok h

variable {visit : Visit} {best : Option Plan}

/-- The plan of a set completes a cheapest join. -/
theorem CheapestOf.exists_cheapest (h : s.CheapestOf known set (visit set.members) (some plan))
    (hVisit : ∀ l, (visit l).Perm l) : ∃ p previous o, s.Cheapest known set p previous o ∧
      s.complete previous o = .ok plan ∧ unbounded.le o.cost = false := by
  obtain ⟨p, hp, previous, o, hLast, hComplete, hBelow, hLeast⟩ := h.attained plan rfl
  refine ⟨p, previous, o, ⟨(hVisit _).mem_iff.mp hp, hLast, fun q hq => ?_⟩, hComplete, hBelow⟩
  exact hLeast q ((hVisit _).mem_iff.mpr hq)

/-- Without a plan all costs have reached the bound. -/
theorem CheapestOf.reached (h : s.CheapestOf known set (visit set.members) none)
    (hVisit : ∀ l, (visit l).Perm l) (hp : p ∈ set.members)
    (hLast : s.LastJoin known set p previous o) : unbounded.le o.cost = true :=
  h.unreached rfl p ((hVisit _).mem_iff.mpr hp) previous o hLast

end JoinPlanner.Setting
