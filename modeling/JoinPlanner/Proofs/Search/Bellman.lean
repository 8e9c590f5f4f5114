import JoinPlanner.Proofs.Search.Cells

/-!
# JoinPlanner — the equation of a cell

A plan table answers for every set from its own answers for the sets with one join less: the
plan of a set is the cheapest one that executes one of the joins last. The search finds it
with a bound that shrinks from trial to trial; the equation knows neither the bound nor the
sequence of the trials.

* `Allowed`, `Cheaper`  — the orientations of a join, and the one that is chosen.
* `orient_eq_ok_iff`    — `orient` chooses the cheaper one.
* `CanBeLast`           — the other joins of a set have a plan that the join touches.
* `LastStep`            — the inputs and the orientation of a join that is executed last.
* `BellmanCell`         — the equation of one set.
* `Searched.bellmanCell` — it holds of all sets of joins in a finished table.
-/

namespace JoinPlanner

open Outcome

-- ---------------------------------------------------------------------------
-- Orientations
-- ---------------------------------------------------------------------------

/-- The orientations that a join may be executed in; a subplan is always on the right. -/
inductive Allowed (p : Predicate) (l r : JoinInput) : Oriented → Prop
  | given {o : Oriented} (costed : asGiven p l r = .ok o) : Allowed p l r o
  | exchanged {o : Oriented} (kind : p.isSubplan = false)
      (costed : asGiven p.flipped r l = .ok o) : Allowed p l r o

/-- The given orientation, unless the exchanged one is allowed and strictly cheaper. -/
inductive Cheaper (p : Predicate) (l r : JoinInput) : Oriented → Prop
  | only {o : Oriented} (kind : p.isSubplan = true) (given : asGiven p l r = .ok o) :
      Cheaper p l r o
  | given {o other : Oriented} (kind : p.isSubplan = false) (given : asGiven p l r = .ok o)
      (exchanged : asGiven p.flipped r l = .ok other) (least : other.cost.lt o.cost = false) :
      Cheaper p l r o
  | exchanged {o other : Oriented} (kind : p.isSubplan = false)
      (given : asGiven p l r = .ok other) (exchanged : asGiven p.flipped r l = .ok o)
      (cheaper : o.cost.lt other.cost = true) : Cheaper p l r o

section Orientations

variable {p : Predicate} {l r : JoinInput} {o o' : Oriented}

theorem orient_eq_ok_iff : orient p l r = .ok o ↔ Cheaper p l r o := by
  constructor
  · intro h
    rcases orient_cases h with ⟨hKind, hGiven⟩ | ⟨hKind, given, exchanged, hGiven, hExchanged, rfl⟩
    · exact .only hKind hGiven
    · cases hLt : exchanged.cost.lt given.cost with
      | true =>
        rw [if_pos rfl]
        exact .exchanged hKind hGiven hExchanged hLt
      | false =>
        rw [if_neg Bool.false_ne_true]
        exact .given hKind hGiven hExchanged hLt
  · intro h
    simp only [orient, bind_eq_ok]
    cases h with
    | only kind given => exact ⟨o, given, by rw [if_pos kind]; rfl⟩
    | @given other kind given exchanged least =>
      refine ⟨o, given, ?_⟩
      simp only [kind, Bool.false_eq_true, if_false, bind_eq_ok]
      exact ⟨other, exchanged, by rw [least]; rfl⟩
    | @exchanged other kind given exchanged cheaper =>
      refine ⟨other, given, ?_⟩
      simp only [kind, Bool.false_eq_true, if_false, bind_eq_ok]
      exact ⟨o, exchanged, by rw [if_pos cheaper]; rfl⟩

/-- No allowed orientation is cheaper than the chosen one. -/
theorem Cheaper.le_of_allowed (h : Cheaper p l r o) (h' : Allowed p l r o')
    (hFinite : o.cost.Finite) (hFinite' : o'.cost.Finite) : o.cost.le o'.cost = true := by
  rw [Quantity.le_iff_units hFinite hFinite']
  -- twice the same orientation has the same cost
  have hSame : ∀ {x : Except NumberError Oriented}, x = .ok o → x = .ok o' →
      Quantity.units o.cost ≤ Quantity.units o'.cost := by
    intro x hx hx'
    obtain rfl := Except.ok.inj (hx.symm.trans hx')
    exact Int.le_refl _
  cases h with
  | only kind given =>
    cases h' with
    | given costed => exact hSame given costed
    | exchanged kind' _ => cases kind.symm.trans kind'
  | given kind given exchanged least =>
    cases h' with
    | given costed => exact hSame given costed
    | exchanged _ costed =>
      obtain rfl := Except.ok.inj (costed.symm.trans exchanged)
      have hNot : ¬ Quantity.units o'.cost < Quantity.units o.cost := by
        rw [← Quantity.lt_iff_units hFinite' hFinite]
        exact Bool.eq_false_iff.mp least
      exact Int.not_lt.mp hNot
  | exchanged kind given exchanged cheaper =>
    cases h' with
    | exchanged _ costed => exact hSame exchanged costed
    | given costed =>
      obtain rfl := Except.ok.inj (costed.symm.trans given)
      exact Int.le_of_lt ((Quantity.lt_iff_units hFinite hFinite').mp cheaper)

end Orientations

-- ---------------------------------------------------------------------------
-- The equation
-- ---------------------------------------------------------------------------

namespace Setting

variable {s : Setting} {known : JoinSet → Option Plan} {set : JoinSet} {p : Predicate}
  {previous : Option Plan} {l r : JoinInput} {o : Oriented}

/-- The join is in the set, and it is the only one or touches the plan of the others. -/
def CanBeLast (known : JoinSet → Option Plan) (set : JoinSet) (p : Predicate) : Prop :=
  p ∈ set.members ∧ ((set.without p).members = [] ∨
    ∃ plan, known (set.without p) = some plan ∧ p.Touches plan.order)

/-- How a join of the set is executed after the plan of the others. -/
structure LastStep (s : Setting) (known : JoinSet → Option Plan) (set : JoinSet) (p : Predicate)
    (previous : Option Plan) (l r : JoinInput) (o : Oriented) : Prop where
  member : p ∈ set.members
  /-- The plan of the others, or no plan if the join is the only one. -/
  rest : previousOf? known set p = some previous
  inputs : s.Inputs previous p l r
  cheaper : Cheaper p l r o

/-- The plan of a set is the cheapest one that executes one of its joins last. -/
structure BellmanCell (s : Setting) (known : JoinSet → Option Plan) (set : JoinSet) : Prop where
  /-- Without a join that can be the last one there is no plan, and only then. -/
  planned_iff : (∃ plan, known set = some plan) ↔ ∃ p, CanBeLast known set p
  /-- Exactly the joins that can be the last one have a cost. -/
  step_iff : ∀ p, CanBeLast known set p ↔ ∃ previous l r o, s.LastStep known set p previous l r o
  /-- Cost, cardinality and order are those of one join in its cheaper orientation. -/
  attained : ∀ plan, known set = some plan → ∃ p previous l r o cardinality,
    s.LastStep known set p previous l r o ∧
    s.joinCardinality o.join o.left.cardinality o.right.cardinality o.left.key o.right.key =
      .ok cardinality ∧
    plan = ⟨o.cost, cardinality, orderOf previous ++ [o.join]⟩
  /-- No join costs less as the last one. -/
  least : ∀ plan, known set = some plan → ∀ p previous l r o,
    s.LastStep known set p previous l r o → plan.cost.le o.cost = true
  /-- No allowed orientation of a join costs less either. -/
  least_allowed : ∀ plan, known set = some plan → ∀ p previous l r o o',
    s.LastStep known set p previous l r o → Allowed p l r o' → o'.cost.Finite →
      plan.cost.le o'.cost = true

theorem canBeLast_iff : CanBeLast known set p ↔ p ∈ set.members ∧
    ∃ previous, previousOf? known set p = some previous ∧
      ∀ plan, previous = some plan → p.Touches plan.order := by
  refine and_congr_right fun _ => ?_
  rw [previousOf?]
  by_cases hRest : (set.without p).members = []
  · rw [if_pos (List.isEmpty_iff.mpr hRest)]
    refine iff_of_true (Or.inl hRest) ⟨none, rfl, fun plan hPlan => ?_⟩
    cases hPlan
  · rw [if_neg (by rwa [List.isEmpty_iff])]
    constructor
    · rintro (hEmpty | ⟨plan, hPlan, hTouches⟩)
      · exact absurd hEmpty hRest
      · refine ⟨some plan, by rw [hPlan, Option.map_some], fun other hOther => ?_⟩
        exact Option.some.inj hOther ▸ hTouches
    · rintro ⟨previous, hPrevious, hTouches⟩
      obtain ⟨plan, hPlan, rfl⟩ := Option.map_eq_some_iff.mp hPrevious
      exact Or.inr ⟨plan, hPlan, hTouches plan rfl⟩

theorem lastStep_of_lastJoin (hp : p ∈ set.members) (h : s.LastJoin known set p previous o) :
    ∃ l r, s.LastStep known set p previous l r o := by
  obtain ⟨l, r, hInputs, hOrient⟩ := h.next
  exact ⟨l, r, hp, h.rest, hInputs, orient_eq_ok_iff.mp hOrient⟩

theorem LastStep.lastJoin (h : s.LastStep known set p previous l r o) :
    s.LastJoin known set p previous o :=
  ⟨h.rest, l, r, h.inputs, orient_eq_ok_iff.mpr h.cheaper⟩

theorem LastStep.canBeLast (h : s.LastStep known set p previous l r o) :
    CanBeLast known set p := by
  refine canBeLast_iff.mpr ⟨h.member, previous, h.rest, ?_⟩
  rintro plan rfl
  exact h.inputs.touches

/-- The best plan after the trials of all joins solves the equation. -/
theorem BestOf.bellmanCell {tried : List Predicate}
    (h : s.BestOf known set tried (known set)) (hTried : ∀ p, p ∈ tried ↔ p ∈ set.members)
    (hFinite : s.FiniteTrials known set tried) : s.BellmanCell known set := by
  have hStep : ∀ p, CanBeLast known set p ↔
      ∃ previous l r o, s.LastStep known set p previous l r o := by
    intro p
    constructor
    · intro hLast
      obtain ⟨hp, previous, hPrevious, hTouches⟩ := canBeLast_iff.mp hLast
      obtain ⟨o, hJoin⟩ := h.estimated p ((hTried p).mpr hp) previous hPrevious hTouches
      obtain ⟨l, r, hStep⟩ := lastStep_of_lastJoin hp hJoin
      exact ⟨previous, l, r, o, hStep⟩
    · rintro ⟨previous, l, r, o, hStep⟩
      exact hStep.canBeLast
  refine ⟨⟨?_, ?_⟩, hStep, ?_, ?_, ?_⟩
  · rintro ⟨plan, hPlan⟩
    obtain ⟨p, hp, previous, o, hJoin, -⟩ := h.attained plan hPlan
    obtain ⟨l, r, hLast⟩ := lastStep_of_lastJoin ((hTried p).mp hp) hJoin
    exact ⟨p, hLast.canBeLast⟩
  · rintro ⟨p, hLast⟩
    obtain ⟨previous, l, r, o, hLast⟩ := (hStep p).mp hLast
    obtain ⟨plan, hPlan, -⟩ :=
      h.least hFinite p ((hTried p).mpr hLast.member) previous o hLast.lastJoin
    exact ⟨plan, hPlan⟩
  · intro plan hPlan
    obtain ⟨p, hp, previous, o, hJoin, hComplete⟩ := h.attained plan hPlan
    obtain ⟨l, r, hLast⟩ := lastStep_of_lastJoin ((hTried p).mp hp) hJoin
    obtain ⟨cardinality, hCardinality, rfl⟩ := complete_eq_ok_iff.mp hComplete
    exact ⟨p, previous, l, r, o, cardinality, hLast, hCardinality, rfl⟩
  · intro plan hPlan p previous l r o hLast
    rw [hPlan] at h
    exact h.le_of_lastJoin hFinite ((hTried p).mpr hLast.member) hLast.lastJoin
  · intro plan hPlan p previous l r o o' hLast hAllowed hCost'
    have hp := (hTried p).mpr hLast.member
    have hCost : o.cost.Finite := hFinite p hp previous o hLast.lastJoin
    rw [hPlan] at h
    exact Quantity.le_trans (h.finite hFinite) hCost hCost'
      (h.le_of_lastJoin hFinite hp hLast.lastJoin)
      (hLast.cheaper.le_of_allowed hAllowed hCost hCost')

/-- The equation does not depend on how a set is listed. -/
theorem BellmanCell.congr {plans : PlanTable} {other : JoinSet}
    (h : s.BellmanCell plans.get? other) (hSame : set == other) :
    s.BellmanCell plans.get? set := by
  have hMem := JoinSet.beq_iff.mp hSame
  have hPrevious := plans.previousOf?_congr hSame
  have hGet : plans.get? set = plans.get? other := Association.get?_congr _ hSame
  have hLast : ∀ p, CanBeLast plans.get? set p ↔ CanBeLast plans.get? other p := by
    intro p
    rw [canBeLast_iff, canBeLast_iff, hMem, hPrevious]
  have hStep : ∀ p previous l r o, s.LastStep plans.get? set p previous l r o ↔
      s.LastStep plans.get? other p previous l r o := by
    intro p previous l r o
    constructor
    · intro hStep
      exact ⟨(hMem p).mp hStep.member, (hPrevious p).symm.trans hStep.rest, hStep.inputs,
        hStep.cheaper⟩
    · intro hStep
      exact ⟨(hMem p).mpr hStep.member, (hPrevious p).trans hStep.rest, hStep.inputs,
        hStep.cheaper⟩
  constructor <;> simp only [hGet, hLast, hStep]
  · exact h.planned_iff
  · exact h.step_iff
  · exact h.attained
  · exact h.least
  · exact h.least_allowed

end Setting

-- ---------------------------------------------------------------------------
-- Finished tables
-- ---------------------------------------------------------------------------

/-- Every set of joins satisfies its equation in a finished table. -/
theorem Searched.bellmanCell {s : Setting} {visit : Visit} {joins : List Predicate}
    {plans : PlanTable} (h : Searched s visit joins joins.length plans)
    (hVisit : ∀ l, (visit l).Perm l) (hFinite : FiniteCosts s joins joins.length plans)
    {set : JoinSet} (hNe : set.members ≠ []) (hSubset : ∀ p ∈ set.members, p ∈ joins) :
    s.BellmanCell plans.get? set := by
  obtain ⟨listed, hWithin, hSame⟩ := exists_within hNe hSubset
  have hTried : ∀ p, p ∈ visit listed ↔ p ∈ listed := fun p => (hVisit listed).mem_iff
  have hTrials : s.FiniteTrials plans.get? ⟨listed⟩ (visit listed) :=
    (hFinite listed hWithin).mono fun p hp => (hTried p).mp hp
  exact ((h.bestOf hWithin).bellmanCell hTried hTrials).congr (JoinSet.beq_iff.mpr hSame)

end JoinPlanner
