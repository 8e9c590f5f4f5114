import JoinPlanner.Proofs.Quantity
import JoinPlanner.Proofs.Search.Extension

/-!
# JoinPlanner — the plan of one set

The joins of a set are tried one after another as its last one. What the search knows
after some of them is an invariant of this loop.

* `previousOf?`     — the plan that a last join extends.
* `LastJoin`        — a join that can be the last one of its set, as it is oriented.
* `improve_cases`   — what one trial does to the best plan.
* `BestOf`          — the best plan after some trials; the plan comes from one of them,
  and if all costs are finite none of them is cheaper.
* `ensures_bestPlan` — the plan of a set is the best one after all trials.
* `exists_complete_of_first` — the first trial counts its tuples.
* `bestPlan_congr`  — it depends on the plans of the sets with one join less only.
-/

namespace JoinPlanner.Setting

open Outcome

variable {s : Setting} {known : JoinSet → Option Plan} {set : JoinSet}

-- ---------------------------------------------------------------------------
-- One trial
-- ---------------------------------------------------------------------------

/-- The plan that a last join extends, if there is one; an only join extends no plan. -/
def previousOf? (known : JoinSet → Option Plan) (set : JoinSet) (p : Predicate) :
    Option (Option Plan) :=
  if (set.without p).members.isEmpty then some none else (known (set.without p)).map some

/-- The join can be the last one of its set. -/
structure LastJoin (s : Setting) (known : JoinSet → Option Plan) (set : JoinSet) (p : Predicate)
    (previous : Option Plan) (o : Oriented) : Prop where
  rest : previousOf? known set p = some previous
  next : s.Candidate previous p o

theorem candidate_eq (bound : Cost) (p : Predicate) :
    s.candidate known set bound p =
      match previousOf? known set p with
      | none => .ok none
      | some previous => s.extendBelow bound previous p := by
  simp only [candidate, previousOf?]
  cases hEmpty : (set.without p).members.isEmpty with
  | true => rfl
  | false => cases hRest : known (set.without p) <;> simp

/-- The cost that a further plan has to undercut. -/
def boundOf (best : Option Plan) : Cost := (best.map Plan.cost).getD unbounded

/-- A trial finds no inputs, or a plan that is not cheaper, or a better plan. -/
theorem improve_cases {best best' : Option Plan} {p : Predicate}
    (h : s.improve known set best p = .ok best') :
    (best' = best ∧ ∀ previous, previousOf? known set p = some previous →
      ∃ plan, previous = some plan ∧ ¬ p.Touches plan.order) ∨
    (best' = best ∧ ∃ previous o, s.LastJoin known set p previous o ∧
      (boundOf best).le o.cost = true) ∨
    (∃ previous o plan, s.LastJoin known set p previous o ∧ (boundOf best).le o.cost = false ∧
      s.complete previous o = .ok plan ∧ best' = some plan) := by
  simp only [improve, bind_eq_ok, pure_eq_ok, candidate_eq] at h
  obtain ⟨found, hFound, rfl⟩ := h
  cases hPrevious : previousOf? known set p with
  | none =>
    simp only [hPrevious, Except.ok.injEq] at hFound
    subst hFound
    exact Or.inl ⟨Option.none_or, fun previous hSome => by cases hSome⟩
  | some previous =>
    simp only [hPrevious] at hFound
    cases found with
    | none =>
      rcases extendBelow_eq_none_iff.mp hFound with ⟨plan, hPlan, hTouches⟩ | ⟨o, hNext, hBound⟩
      · refine Or.inl ⟨Option.none_or, fun other hOther => ?_⟩
        cases hOther
        exact ⟨plan, hPlan, hTouches⟩
      · exact Or.inr (Or.inl ⟨Option.none_or, previous, o, ⟨hPrevious, hNext⟩, hBound⟩)
    | some plan =>
      obtain ⟨o, hNext, hBound, hComplete⟩ := extendBelow_eq_some_iff.mp hFound
      exact Or.inr (Or.inr
        ⟨previous, o, plan, ⟨hPrevious, hNext⟩, hBound, hComplete, Option.some_or⟩)

theorem LastJoin.unique {p : Predicate} {previous previous' : Option Plan} {o o' : Oriented}
    (h : s.LastJoin known set p previous o) (h' : s.LastJoin known set p previous' o') :
    previous = previous' ∧ o = o' := by
  obtain rfl : previous = previous' := Option.some.inj (h.rest.symm.trans h'.rest)
  exact ⟨rfl, h.next.unique h'.next⟩

-- ---------------------------------------------------------------------------
-- Several trials
-- ---------------------------------------------------------------------------

/-- The costs of all last joins that are tried are finite. -/
def FiniteTrials (s : Setting) (known : JoinSet → Option Plan) (set : JoinSet)
    (tried : List Predicate) : Prop :=
  ∀ p ∈ tried, ∀ previous o, s.LastJoin known set p previous o → o.cost.Finite

instance (tried : List Predicate) : Decidable (s.FiniteTrials known set tried) :=
  decidable_of_iff (∀ p ∈ tried, ∀ previous ∈ previousOf? known set p,
    ∀ o ∈ s.oriented? previous p, o.cost.Finite) <| by
      refine forall₂_congr fun p _ => forall_congr' fun previous => ?_
      constructor
      · intro h o hLast
        exact h hLast.rest o (candidate_iff_oriented?.mp hLast.next)
      · intro h hRest o hNext
        exact h o ⟨hRest, candidate_iff_oriented?.mpr hNext⟩

/-- The best plan of a set after some joins were tried as its last one. -/
structure BestOf (s : Setting) (known : JoinSet → Option Plan) (set : JoinSet)
    (tried : List Predicate) (best : Option Plan) : Prop where
  /-- Every join that touches the plan of the others has been estimated. -/
  estimated : ∀ p ∈ tried, ∀ previous, previousOf? known set p = some previous →
    (∀ plan, previous = some plan → p.Touches plan.order) →
      ∃ o, s.LastJoin known set p previous o
  /-- The best plan executes one of the joins last. -/
  attained : ∀ plan, best = some plan → ∃ p ∈ tried, ∃ previous o,
    s.LastJoin known set p previous o ∧ s.complete previous o = .ok plan
  /-- No join would have made a cheaper plan. -/
  least : s.FiniteTrials known set tried → ∀ p ∈ tried, ∀ previous o,
    s.LastJoin known set p previous o →
      ∃ plan, best = some plan ∧ Quantity.units plan.cost ≤ Quantity.units o.cost

theorem bestOf_nil : s.BestOf known set [] none := by
  refine ⟨?_, ?_, ?_⟩
  · intro p hp
    cases hp
  · intro plan hPlan
    cases hPlan
  · intro _ p hp
    cases hp

theorem FiniteTrials.mono {some all : List Predicate} (h : s.FiniteTrials known set all)
    (hSubset : ∀ p ∈ some, p ∈ all) : s.FiniteTrials known set some :=
  fun p hp => h p (hSubset p hp)

/-- The best plan has the cost of a last join, which is finite if all of them are. -/
theorem BestOf.finite {tried : List Predicate} {plan : Plan}
    (h : s.BestOf known set tried (some plan)) (hFinite : s.FiniteTrials known set tried) :
    plan.cost.Finite := by
  obtain ⟨p, hp, previous, o, hLast, hComplete⟩ := h.attained plan rfl
  obtain ⟨card, -, rfl⟩ := complete_eq_ok_iff.mp hComplete
  exact hFinite p hp previous o hLast

/-- The best plan costs no more than any last join that was tried. -/
theorem BestOf.le_of_lastJoin {tried : List Predicate} {plan : Plan} {p : Predicate}
    {previous : Option Plan} {o : Oriented} (h : s.BestOf known set tried (some plan))
    (hFinite : s.FiniteTrials known set tried) (hp : p ∈ tried)
    (hLast : s.LastJoin known set p previous o) : plan.cost.le o.cost = true := by
  obtain ⟨best, hBest, hLe⟩ := h.least hFinite p hp previous o hLast
  obtain rfl := Option.some.inj hBest
  exact (Quantity.le_iff_units (h.finite hFinite) (hFinite p hp previous o hLast)).mpr hLe

/-- A join that was tried has been estimated if it touches the plan of the others. -/
theorem exists_lastJoin_of_improve {best best' : Option Plan} {p : Predicate}
    {previous : Option Plan} (hImprove : s.improve known set best p = .ok best')
    (hPrevious : previousOf? known set p = some previous)
    (hTouches : ∀ plan, previous = some plan → p.Touches plan.order) :
    ∃ o, s.LastJoin known set p previous o := by
  rcases improve_cases hImprove with ⟨-, hNone⟩ | ⟨-, other, o, hLast, -⟩ | ⟨other, o, -, hLast, -⟩
  · obtain ⟨plan, hPlan, hNot⟩ := hNone previous hPrevious
    exact absurd (hTouches plan hPlan) hNot
  · obtain rfl := Option.some.inj (hPrevious.symm.trans hLast.rest)
    exact ⟨o, hLast⟩
  · obtain rfl := Option.some.inj (hPrevious.symm.trans hLast.rest)
    exact ⟨o, hLast⟩

/-- After a trial the best plan costs no more than the join that was tried. -/
theorem le_lastJoin_of_improve {best best' : Option Plan} {p : Predicate} {previous : Option Plan}
    {o : Oriented} (hImprove : s.improve known set best p = .ok best')
    (hLast : s.LastJoin known set p previous o) (hCost : o.cost.Finite)
    (hBest : ∀ plan, best = some plan → plan.cost.Finite) :
    ∃ plan, best' = some plan ∧ Quantity.units plan.cost ≤ Quantity.units o.cost := by
  rcases improve_cases hImprove with ⟨-, hNone⟩ | ⟨rfl, previous', o', hLast', hBound⟩ |
    ⟨previous', o', plan, hLast', -, hComplete, rfl⟩
  · obtain ⟨plan, rfl, hNot⟩ := hNone previous hLast.rest
    obtain ⟨l, r, hInputs, -⟩ := hLast.next
    exact absurd hInputs.touches hNot
  · -- the bound was reached, so there is a plan that is not dearer
    obtain ⟨-, rfl⟩ := hLast.unique hLast'
    cases best' with
    | none =>
      rw [boundOf, Option.map_none, Option.getD_none, Quantity.unbounded_not_le hCost] at hBound
      cases hBound
    | some plan => exact ⟨plan, rfl, (Quantity.le_iff_units (hBest plan rfl) hCost).mp hBound⟩
  · obtain ⟨-, rfl⟩ := hLast.unique hLast'
    obtain ⟨card, -, rfl⟩ := complete_eq_ok_iff.mp hComplete
    exact ⟨_, rfl, Int.le_refl _⟩

/-- A trial never makes the best plan dearer. -/
theorem le_best_of_improve {best' : Option Plan} {best : Plan} {p : Predicate}
    (hImprove : s.improve known set (some best) p = .ok best') (hBest : best.cost.Finite)
    (hFinite : ∀ previous o, s.LastJoin known set p previous o → o.cost.Finite) :
    ∃ plan, best' = some plan ∧ Quantity.units plan.cost ≤ Quantity.units best.cost := by
  rcases improve_cases hImprove with ⟨rfl, -⟩ | ⟨rfl, -⟩ |
    ⟨previous, o, plan, hLast, hBound, hComplete, rfl⟩
  · exact ⟨best, rfl, Int.le_refl _⟩
  · exact ⟨best, rfl, Int.le_refl _⟩
  · obtain ⟨card, -, rfl⟩ := complete_eq_ok_iff.mp hComplete
    have hNot : ¬ Quantity.units best.cost ≤ Quantity.units o.cost := by
      rw [← Quantity.le_iff_units hBest (hFinite previous o hLast)]
      exact Bool.eq_false_iff.mp hBound
    exact ⟨_, rfl, Int.le_of_lt (Int.not_le.mp hNot)⟩

/-- One more trial keeps the invariant. -/
theorem BestOf.step {tried : List Predicate} {best best' : Option Plan} {p : Predicate}
    (h : s.BestOf known set tried best) (hImprove : s.improve known set best p = .ok best') :
    s.BestOf known set (tried ++ [p]) best' := by
  have hOld : ∀ q ∈ tried, q ∈ tried ++ [p] := fun q hq => List.mem_append_left _ hq
  have hNew : p ∈ tried ++ [p] := List.mem_append_right _ (List.mem_singleton_self p)
  refine ⟨?_, ?_, ?_⟩
  · intro q hq previous hPrevious hTouches
    rcases List.mem_append.mp hq with hq | hq
    · exact h.estimated q hq previous hPrevious hTouches
    · obtain rfl := List.mem_singleton.mp hq
      exact exists_lastJoin_of_improve hImprove hPrevious hTouches
  · intro plan hPlan
    -- a plan that was there before comes from an earlier trial
    have hKept : best' = best → ∃ q ∈ tried ++ [p], ∃ previous o,
        s.LastJoin known set q previous o ∧ s.complete previous o = .ok plan := by
      intro hSame
      obtain ⟨q, hq, hLast⟩ := h.attained plan (hSame.symm.trans hPlan)
      exact ⟨q, hOld q hq, hLast⟩
    rcases improve_cases hImprove with ⟨hSame, -⟩ | ⟨hSame, -⟩ |
      ⟨previous, o, plan', hLast, -, hComplete, hBest⟩
    · exact hKept hSame
    · exact hKept hSame
    · obtain rfl := Option.some.inj (hBest.symm.trans hPlan)
      exact ⟨p, hNew, previous, o, hLast, hComplete⟩
  · intro hFinite q hq previous o hLast
    have hBest : ∀ plan, best = some plan → plan.cost.Finite := by
      rintro plan rfl
      exact h.finite (hFinite.mono hOld)
    rcases List.mem_append.mp hq with hq | hq
    · obtain ⟨plan, rfl, hLe⟩ := h.least (hFinite.mono hOld) q hq previous o hLast
      obtain ⟨plan', hPlan, hLe'⟩ :=
        le_best_of_improve hImprove (hBest plan rfl) (hFinite p hNew)
      exact ⟨plan', hPlan, Int.le_trans hLe' hLe⟩
    · obtain rfl := List.mem_singleton.mp hq
      exact le_lastJoin_of_improve hImprove hLast (hFinite q hNew previous o hLast) hBest

-- ---------------------------------------------------------------------------
-- All trials
-- ---------------------------------------------------------------------------

theorem ensures_improve {E : PlannerError → Prop} {best : Option Plan} {p : Predicate}
    (h : ∀ previous, previousOf? known set p = some previous →
      (s.extendBelow (boundOf best) previous p).Ensures E fun _ => True) :
    (s.improve known set best p).Ensures E fun _ => True := by
  refine ensures_bind (P := fun _ => True) ?_ fun _ _ _ => .ok trivial
  rw [candidate_eq]
  cases hPrevious : previousOf? known set p with
  | none => exact .ok trivial
  | some previous => exact h previous hPrevious

/-- The plan of a set is the best one after all trials; only an extension can fail. -/
theorem ensures_bestPlan {E : PlannerError → Prop} {visit : Visit}
    (h : ∀ p ∈ visit set.members, ∀ bound previous, previousOf? known set p = some previous →
      (s.extendBelow bound previous p).Ensures E fun _ => True) :
    (s.bestPlan visit known set).Ensures E (s.BestOf known set (visit set.members)) := by
  refine ensures_foldlM bestOf_nil fun done p rest best hSplit hDone => ?_
  have hMem : p ∈ visit set.members := by simp [hSplit]
  exact (ensures_improve (h p hMem _)).mono fun best' hImprove _ => hDone.step hImprove

theorem bestOf_of_bestPlan {visit : Visit} {best : Option Plan}
    (h : s.bestPlan visit known set = .ok best) :
    s.BestOf known set (visit set.members) best :=
  (ensures_bestPlan fun _ _ _ _ _ => ensures_any fun _ _ => trivial).of_eq_ok h

/-- The join that is tried first has its tuples counted, unless it has reached the bound. -/
theorem exists_complete_of_first {visit : Visit} {p : Predicate} {rest : List Predicate}
    {best previous : Option Plan} {o : Oriented} (h : s.bestPlan visit known set = .ok best)
    (hVisit : visit set.members = p :: rest) (hLast : s.LastJoin known set p previous o)
    (hBound : unbounded.le o.cost = false) : ∃ plan, s.complete previous o = .ok plan := by
  rw [bestPlan, hVisit, List.foldlM_cons] at h
  obtain ⟨first, hFirst, -⟩ := bind_eq_ok.mp h
  rcases improve_cases hFirst with ⟨-, hNone⟩ | ⟨-, previous', o', hLast', hReached⟩ |
    ⟨previous', o', plan, hLast', -, hComplete, -⟩
  · obtain ⟨plan, rfl, hTouches⟩ := hNone previous hLast.rest
    obtain ⟨l, r, hInputs, -⟩ := hLast.next
    exact absurd hInputs.touches hTouches
  · obtain ⟨-, rfl⟩ := hLast.unique hLast'
    cases hBound.symm.trans hReached
  · obtain ⟨rfl, rfl⟩ := hLast.unique hLast'
    exact ⟨plan, hComplete⟩

/-- Only the plans of the sets with one join less matter. -/
theorem bestPlan_congr {known' : JoinSet → Option Plan} {visit : Visit}
    (h : ∀ p ∈ visit set.members, previousOf? known set p = previousOf? known' set p) :
    s.bestPlan visit known set = s.bestPlan visit known' set := by
  rw [bestPlan, bestPlan]
  generalize visit set.members = order at h
  generalize none = best
  induction order generalizing best with
  | nil => rfl
  | cons p rest ih =>
    have hImprove : s.improve known set best p = s.improve known' set best p := by
      simp only [improve, candidate_eq, h p List.mem_cons_self]
    rw [List.foldlM_cons, List.foldlM_cons, hImprove]
    exact bind_congr fun best' => ih (fun q hq => h q (List.mem_cons_of_mem p hq)) best'

end JoinPlanner.Setting
