import JoinPlanner.Proofs.Components
import JoinPlanner.Proofs.Forest
import JoinPlanner.Proofs.Search.Bellman
import JoinPlanner.Proofs.Search.SameCondition

/-!
# JoinPlanner — joins with exchanged sides

A join whose sides are exchanged has the inputs of the join the other way round, if the plan
so far is on one of its sides only; in a forest it is. The orientations of both forms are the
same, so the cheaper ones are equally good, even if they differ because both cost the same.

* `Predicate.turned`      — the chosen predicates with their sides exchanged.
* `inputs_flipped`        — the inputs of a join are exchanged with its sides.
* `Candidate.inputs`      — an oriented join reads its inputs as if it had been given like that.
* `orientations`, `DefinedOrientations` — no orientation of a last join has an undefined cost.
* `exists_orient_flipped` — both forms of a join have cheaper orientations that are equally good.
* `follows_turned`        — the joins of a forest follow each other in any orientation.
-/

namespace JoinPlanner

open Outcome Setting

-- ---------------------------------------------------------------------------
-- Predicates
-- ---------------------------------------------------------------------------

/-- The predicate, with its sides exchanged if it is one of the chosen ones. -/
def Predicate.turned (flips : Predicate → Bool) (p : Predicate) : Predicate :=
  if flips p then p.flipped else p

theorem Predicate.sameJoin_turned (flips : Predicate → Bool) (p : Predicate) :
    (p.turned flips).SameJoin p := by
  rw [turned]
  split
  · exact Or.inr rfl
  · exact Or.inl rfl

/-- Distinct joins stay distinct. -/
theorem DistinctJoins.map_turned {joins : List Predicate} (h : DistinctJoins joins)
    (flips : Predicate → Bool) : DistinctJoins (joins.map (Predicate.turned flips)) :=
  h.map _ fun p q hNot hSame => hNot
    (((Predicate.sameJoin_turned flips q).symm.trans hSame).trans
      (Predicate.sameJoin_turned flips p))

/-- Different joins of a forest with aliases are distinct. -/
theorem Forest.distinctJoins {joins : List Predicate} (h : Forest joins) (hNodup : joins.Nodup)
    (hNodes : ∀ p ∈ joins, JoinGraph.HasNodes p) : DistinctJoins joins := by
  refine hNodup.imp_of_mem fun {p q} hp hq hNe hSame => ?_
  rcases hSame with rfl | rfl
  · exact hNe rfl
  · obtain ⟨hLeft, hRight⟩ := hNodes p hp
    obtain ⟨kind, left, operator, right⟩ := p
    cases kind with
    | subplan => exact hNe rfl
    | table =>
      obtain ⟨a, ha⟩ := Option.isSome_iff_exists.mp hLeft
      obtain ⟨b, hb⟩ := Option.isSome_iff_exists.mp (hRight rfl)
      have hLinks : Predicate.Links ⟨.table, left, operator, right⟩ a b := ⟨rfl, Or.inl ⟨ha, hb⟩⟩
      exact hNe (h.single _ hp _ hq a b hLinks (Predicate.links_flipped.mpr hLinks))

section Flipped

variable {s s' : Setting} {previous previous' : Option Plan} {p : Predicate} {l r : JoinInput}
  {o : Oriented}

theorem flipped_sides (hKind : p.isSubplan = false) :
    p.flipped.left = p.right ∧ p.flipped.right = p.left := by
  obtain ⟨kind, left, operator, right⟩ := p
  cases kind with
  | subplan => cases hKind
  | table => exact ⟨rfl, rfl⟩

-- ---------------------------------------------------------------------------
-- Inputs
-- ---------------------------------------------------------------------------

/-- The inputs are exchanged with the sides, if the plan so far is on one of them only. -/
theorem inputs_flipped (hKind : p.isSubplan = false) (hInputs : s.Inputs previous p l r)
    (hOne : ∀ plan, previous = some plan → joinsTable plan.order p.left.table = true →
      joinsTable plan.order p.right.table = false) : s.Inputs previous p.flipped r l := by
  obtain ⟨hLeft, hRight⟩ := flipped_sides hKind
  have hKind' : p.flipped.isSubplan = false := p.isSubplan_flipped.trans hKind
  have hInner : s.innerInput p.flipped = s.scanInput p.left := by
    rw [innerInput_of_table hKind', hRight]
  cases hInputs with
  | first left right =>
    rw [innerInput_of_table hKind] at right
    exact .first (hLeft ▸ right) (hInner.trans left)
  | @onLeft plan _ _ _ shared left right =>
    rw [innerInput_of_table hKind] at right
    exact .onRight (hLeft ▸ hOne plan rfl shared) hKind' (hRight ▸ shared) left (hLeft ▸ right)
  | onRight fresh kind shared right left =>
    exact .onLeft (hLeft ▸ shared) right (hInner.trans left)

-- ---------------------------------------------------------------------------
-- Orientations
-- ---------------------------------------------------------------------------

/-- All orientations that a join may be executed in. -/
def orientations (p : Predicate) (l r : JoinInput) : List Oriented :=
  (asGiven p l r).toOption.toList ++
    if p.isSubplan then [] else (asGiven p.flipped r l).toOption.toList

/-- No orientation of a last join of the set has an undefined cost. -/
def Setting.DefinedOrientations (s : Setting) (known : JoinSet → Option Plan) (set : JoinSet) :
    Prop :=
  ∀ p ∈ set.members, ∀ previous, previousOf? known set p = some previous → ∀ l r,
    s.inputs? previous p = .ok (some (l, r)) → ∀ o ∈ orientations p l r, o.cost.Defined

instance (s : Setting) (known : JoinSet → Option Plan) (set : JoinSet) :
    Decidable (s.DefinedOrientations known set) :=
  decidable_of_iff (∀ p ∈ set.members, ∀ previous ∈ previousOf? known set p,
    ∀ pair ∈ (s.inputs? previous p).toOption.join, ∀ o ∈ orientations p pair.1 pair.2,
      o.cost.Defined) <| by
        refine forall₂_congr fun p _ => forall₂_congr fun previous _ => ?_
        have hInputs : ∀ l r, (l, r) ∈ (s.inputs? previous p).toOption.join ↔
            s.inputs? previous p = .ok (some (l, r)) := by
          intro l r
          cases s.inputs? previous p <;> simp [Except.toOption]
        constructor
        · intro h l r hPair
          exact h (l, r) ((hInputs l r).mpr hPair)
        · intro h pair hPair
          exact h pair.1 pair.2 ((hInputs pair.1 pair.2).mp hPair)

theorem mem_orientations (hKind : p.isSubplan = false) :
    o ∈ orientations p l r ↔ asGiven p l r = .ok o ∨ asGiven p.flipped r l = .ok o := by
  have hOk : ∀ {x : Except NumberError Oriented}, o ∈ x.toOption.toList ↔ x = .ok o := by
    intro x
    cases x <;> simp [Except.toOption, eq_comm]
  rw [orientations, hKind, if_neg Bool.false_ne_true, List.mem_append, hOk, hOk]

/-- The cheaper orientation is one of those that a join may be executed in. -/
theorem mem_orientations_of_orient (h : orient p l r = .ok o) : o ∈ orientations p l r := by
  rcases orient_cases h with ⟨-, hGiven⟩ | ⟨hKind, given, exchanged, hGiven, hExchanged, rfl⟩
  · exact List.mem_append_left _ (by rw [hGiven]; exact List.mem_singleton_self o)
  · rw [mem_orientations hKind]
    split
    · exact Or.inr hExchanged
    · exact Or.inl hGiven

theorem Setting.DefinedOrientations.comparable {known : JoinSet → Option Plan} {set : JoinSet}
    (h : s.DefinedOrientations known set) : s.Comparable known set := by
  refine DefinedTrials.comparable fun p hp previous o hLast => ?_
  obtain ⟨l, r, hInputs, hOrient⟩ := hLast.next
  exact h p hp previous hLast.rest l r (inputs?_eq_some_iff.mpr hInputs) o
    (mem_orientations_of_orient hOrient)

/-- If no orientation of a join is cheaper, both cost the same. -/
theorem cost_eq_of_not_lt {given exchanged : Oriented} (hKind : p.isSubplan = false)
    (hGiven : asGiven p l r = .ok given) (hExchanged : asGiven p.flipped r l = .ok exchanged)
    (hGivenCost : given.cost.Defined) (hExchangedCost : exchanged.cost.Defined)
    (hLess : exchanged.cost.lt given.cost = false) (hMore : given.cost.lt exchanged.cost = false) :
    exchanged.cost = given.cost := by
  obtain ⟨cost, hCost, rfl⟩ := asGiven_eq_ok_iff.mp hGiven
  obtain ⟨cost', hCost', rfl⟩ := asGiven_eq_ok_iff.mp hExchanged
  refine Quantity.eq_of_not_lt hExchangedCost hGivenCost ?_ ?_ ?_ hLess hMore
  · rw [isWhole_joinCost hCost, isWhole_joinCost hCost', Bool.and_comm]
  · refine noNegativeZero_joinCost hCost' fun hSubplan => ?_
    cases (p.isSubplan_flipped.trans hKind).symm.trans hSubplan
  · refine noNegativeZero_joinCost hCost fun hSubplan => ?_
    cases hKind.symm.trans hSubplan

/-- The cheaper orientation of both forms of a join; of two that cost the same it is either. -/
theorem exists_orient_flipped (hKind : p.isSubplan = false) (h : orient p l r = .ok o)
    (hDefined : ∀ o ∈ orientations p l r, o.cost.Defined) :
    ∃ given exchanged o', asGiven p l r = .ok given ∧ asGiven p.flipped r l = .ok exchanged ∧
      orient p.flipped r l = .ok o' ∧ o'.cost = o.cost ∧ (o = given ∨ o = exchanged) ∧
      (o' = given ∨ o' = exchanged) := by
  have hKind' : p.flipped.isSubplan = false := p.isSubplan_flipped.trans hKind
  rcases orient_cases h with ⟨hSubplan, -⟩ | ⟨-, given, exchanged, hGiven, hExchanged, rfl⟩
  · cases hKind.symm.trans hSubplan
  have hOther : orient p.flipped r l =
      .ok (if given.cost.lt exchanged.cost then given else exchanged) := by
    have hBack : asGiven p.flipped.flipped l r = .ok given := by rwa [p.flipped_flipped]
    rw [orient, hExchanged]
    show (if p.flipped.isSubplan = true then .ok exchanged else
      asGiven p.flipped.flipped l r >>= fun back =>
        .ok (if back.cost.lt exchanged.cost then back else exchanged) :
          Except NumberError Oriented) = _
    rw [hKind', hBack]
    rfl
  refine ⟨given, exchanged, _, hGiven, hExchanged, hOther, ?_, by split <;> simp,
    by split <;> simp⟩
  have hGivenCost := hDefined given ((mem_orientations hKind).mpr (Or.inl hGiven))
  have hExchangedCost := hDefined exchanged ((mem_orientations hKind).mpr (Or.inr hExchanged))
  cases hLess : exchanged.cost.lt given.cost with
  | true =>
    rw [Quantity.lt_asymm hExchangedCost hGivenCost hLess]
    rfl
  | false =>
    cases hMore : given.cost.lt exchanged.cost with
    | true => rfl
    | false =>
      exact cost_eq_of_not_lt hKind hGiven hExchanged hGivenCost hExchangedCost hLess hMore

-- ---------------------------------------------------------------------------
-- Cardinalities
-- ---------------------------------------------------------------------------

/-- A join with exchanged sides and inputs produces as many tuples. -/
theorem joinCardinality_comm (operator : Comparison) (leftCard rightCard : Cardinality)
    (leftKey rightKey : Bool) (leftTotal rightTotal : Cardinality) (fraction : Quantity) :
    JoinPlanner.joinCardinality operator.converse rightCard leftCard rightKey leftKey rightTotal
        leftTotal fraction =
      JoinPlanner.joinCardinality operator leftCard rightCard leftKey rightKey leftTotal
        rightTotal fraction := by
  have hEqual : operator.converse.isEqual = operator.isEqual := by cases operator <;> rfl
  rw [JoinPlanner.joinCardinality, JoinPlanner.joinCardinality, hEqual, Int.max_comm rightTotal,
    Int.min_comm rightCard, Int.mul_comm rightCard]
  cases leftKey <;> cases rightKey <;> rfl

theorem cardinalityOf_flipped (hKind : p.isSubplan = false)
    (hLeft : s.Known p.left.table) (hRight : s.Known p.right.table) {given exchanged : Oriented}
    (hGiven : asGiven p l r = .ok given) (hExchanged : asGiven p.flipped r l = .ok exchanged) :
    s.cardinalityOf exchanged = s.cardinalityOf given := by
  obtain ⟨cost, -, rfl⟩ := asGiven_eq_ok_iff.mp hGiven
  obtain ⟨cost', -, rfl⟩ := asGiven_eq_ok_iff.mp hExchanged
  obtain ⟨leftStats, hLeftStats⟩ := hLeft.stats
  obtain ⟨rightStats, hRightStats⟩ := hRight.stats
  obtain ⟨kind, left, operator, right⟩ := p
  cases kind with
  | subplan => cases hKind
  | table =>
    simp only [cardinalityOf, Setting.joinCardinality, Predicate.flipped, Predicate.isSubplan,
      hLeftStats, hRightStats]
    show (liftM (JoinPlanner.joinCardinality operator.converse _ _ _ _ _ _ _) : Outcome _) =
      liftM (JoinPlanner.joinCardinality operator _ _ _ _ _ _ _)
    rw [joinCardinality_comm]

-- ---------------------------------------------------------------------------
-- Candidates
-- ---------------------------------------------------------------------------

/-- A candidate reads the inputs of its own form, if the plan so far is on one side only. -/
theorem Setting.Candidate.inputs (h : s.Candidate previous p o)
    (hOne : o.join.isSubplan = false → joinsTable (orderOf previous) o.join.left.table = true →
      joinsTable (orderOf previous) o.join.right.table = false) :
    s.Inputs previous o.join o.left o.right := by
  obtain ⟨l, r, hInputs, hOrient⟩ := h
  rcases orient_cases hOrient with ⟨-, hGiven⟩ | ⟨hKind, given, exchanged, hGiven, hExchanged, hEq⟩
  · obtain ⟨cost, -, rfl⟩ := asGiven_eq_ok_iff.mp hGiven
    exact hInputs
  · obtain ⟨cost, -, rfl⟩ := asGiven_eq_ok_iff.mp hGiven
    obtain ⟨cost', -, rfl⟩ := asGiven_eq_ok_iff.mp hExchanged
    split at hEq
    · subst hEq
      obtain ⟨hLeft, hRight⟩ := flipped_sides hKind
      refine inputs_flipped hKind hInputs fun plan hSome hShared => ?_
      subst hSome
      refine Bool.eq_false_iff.mpr fun hOther => ?_
      have hFresh := hOne (p.isSubplan_flipped.trans hKind) (hLeft.symm ▸ hOther)
      rw [hRight] at hFresh
      cases hFresh.symm.trans hShared
    · subst hEq
      exact hInputs

/-- A join with exchanged sides extends a plan as well as the join does. -/
theorem exists_candidate_flipped (hKind : p.isSubplan = false) (hLeft : s.Known p.left.table)
    (hRight : s.Known p.right.table) (h : s.Candidate previous p o)
    (hOne : ∀ plan, previous = some plan → joinsTable plan.order p.left.table = true →
      joinsTable plan.order p.right.table = false)
    (hDefined : ∀ l r, s.inputs? previous p = .ok (some (l, r)) →
      ∀ o ∈ orientations p l r, o.cost.Defined) :
    ∃ o', s.Candidate previous p.flipped o' ∧ o'.cost = o.cost ∧
      s.cardinalityOf o' = s.cardinalityOf o := by
  obtain ⟨l, r, hInputs, hOrient⟩ := h
  obtain ⟨given, exchanged, o', hGiven, hExchanged, hOther, hCost, hChosen, hChosen'⟩ :=
    exists_orient_flipped hKind hOrient (hDefined l r (inputs?_eq_some_iff.mpr hInputs))
  have hCards := cardinalityOf_flipped hKind hLeft hRight hGiven hExchanged
  refine ⟨o', ⟨r, l, inputs_flipped hKind hInputs hOne, hOther⟩, hCost, ?_⟩
  rcases hChosen with rfl | rfl <;> rcases hChosen' with rfl | rfl <;> simp [hCards]

end Flipped

-- ---------------------------------------------------------------------------
-- Forests
-- ---------------------------------------------------------------------------

/-- A plan of other joins of a forest is on one side of a join only. -/
theorem Forest.joinsTable_right {joins rest : List Predicate} (h : Forest joins) {p : Predicate}
    (hp : p ∈ joins) (hKind : p.isSubplan = false) (hRest : ∀ q ∈ rest, q ∈ joins ∧ q ≠ p)
    {plan : Plan} (hPlan : PlanFor plan rest) (hLeft : joinsTable plan.order p.left.table = true) :
    joinsTable plan.order p.right.table = false := by
  refine Bool.eq_false_iff.mpr fun hRight => ?_
  obtain ⟨q, hq, a, ha, hMem⟩ := joinsTable_iff.mp hLeft
  obtain ⟨r, hr, b, hb, hMem'⟩ := joinsTable_iff.mp hRight
  have hLinks : p.Links a b := by
    refine ⟨?_, Or.inl ⟨ha, hb⟩⟩
    obtain ⟨kind, left, operator, right⟩ := p
    cases kind with
    | subplan => cases hKind
    | table => rfl
  have hChain := (linked_of_leftDeep hPlan.leftDeep) q hq r hr a b hMem hMem'
  refine h.not_chained hp hLinks hRest (hChain.mono fun t ht => ?_)
  obtain ⟨u, hu, hSame⟩ := exists_sameJoin_of_mem hPlan.executes ht
  exact ⟨u, hu, hSame.symm⟩

/-- The joins of a forest follow each other, whichever of them are given with exchanged sides. -/
theorem follows_turned {s s' : Setting} {joins : List Predicate} {plans : PlanTable}
    (hReadings : SameReadings s s') (hForest : Forest joins) (hDistinct : DistinctJoins joins)
    (flips : Predicate → Bool)
    (hKnown : ∀ p ∈ joins, p.isSubplan = false → s.Known p.left.table ∧ s.Known p.right.table)
    (hDefined : ∀ members, Within joins joins.length members →
      s.DefinedOrientations plans.get? ⟨members⟩) :
    Follows s s' joins (Predicate.turned flips) plans := by
  refine ⟨fun p hp q hq hSame => ?_, fun p _ table => (p.sameJoin_turned flips).mem_tables_iff,
    fun p hp q q' hq hq' => ?_, ?_⟩
  · refine hDistinct.eq_of_sameJoin hp hq ((p.sameJoin_turned flips).symm.trans ?_)
    rw [hSame]
    exact q.sameJoin_turned flips
  · have hSides : ∀ t, t.SameJoin p → s.hasKey [t] = s.hasKey [p] := fun t ht =>
      hasKey_eq_of_sameJoins (.cons ht .nil) fun c hc hKind => by
        rw [List.mem_singleton.mp hc] at hKind ⊢
        obtain ⟨hLeft, hRight⟩ := hKnown p hp hKind
        exact ⟨exists_isKey (Or.inr hLeft), exists_isKey (Or.inr hRight)⟩
    rw [hReadings.hasKey_eq, hSides q hq, hSides q' (hq'.trans (p.sameJoin_turned flips))]
  · intro members hWithin p hp previous previous' o hLast hAlike hPlan
    have hSame : ∃ o', s.Candidate previous (p.turned flips) o' ∧ o'.cost = o.cost ∧
        s.cardinalityOf o' = s.cardinalityOf o := by
      by_cases hTurned : p.turned flips = p
      · exact ⟨o, hTurned.symm ▸ hLast.next, rfl, rfl⟩
      · have hFlips : p.turned flips = p.flipped :=
          (p.sameJoin_turned flips).resolve_left hTurned
        have hKind : p.isSubplan = false := by
          obtain ⟨kind, left, operator, right⟩ := p
          cases kind with
          | subplan => exact absurd hFlips hTurned
          | table => rfl
        have hJoins := hWithin.sublist.subset hp
        obtain ⟨hLeft, hRight⟩ := hKnown p hJoins hKind
        rw [hFlips]
        refine exists_candidate_flipped hKind hLeft hRight hLast.next (fun plan hSome hShared => ?_)
          fun l r hInputs => hDefined members hWithin p hp previous hLast.rest l r hInputs
        refine hForest.joinsTable_right hJoins hKind (fun q hq => ?_) (hPlan plan hSome) hShared
        exact ⟨hWithin.sublist.subset (List.mem_of_mem_erase hq),
          ((hWithin.nodup hDistinct.nodup).mem_erase_iff.mp hq).1⟩
    obtain ⟨o', hNext, hCost, hCard⟩ := hSame
    exact ⟨o', hReadings.candidate_of_looksAlike hAlike hNext, hCost,
      (hReadings.cardinalityOf_eq o').trans hCard⟩

end JoinPlanner
