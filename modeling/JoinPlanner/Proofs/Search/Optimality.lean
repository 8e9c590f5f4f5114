import JoinPlanner.Proofs.Search.WholeCosts

/-!
# JoinPlanner — how good the plans of a table are

The table keeps one plan for each set of table joins, the cheapest one that extends a kept
plan. Another order can only be cheaper in the end if one of its beginnings is not cheaper
than the kept plan, but produces fewer tuples.

* `finiteCosts_of_whole` — integer costs are finite, so every left-deep order has a plan.
* `le_of_undercuts`      — a kept plan costs no more than an order whose beginning is undercut.
* `Setting.Overtaken`    — the kept plan of a beginning costs no more, but does not undercut it.
* `Setting.NoFewerTuples` — no beginning produces fewer tuples than the kept plan of its set.
* `le_or_overtaken`      — a kept plan costs no more than a left-deep order of its set, or
  that order is overtaken.
-/

namespace JoinPlanner

open Outcome Setting

-- ---------------------------------------------------------------------------
-- Overtaken orders
-- ---------------------------------------------------------------------------

/--
The kept plan of some beginning of the order costs no more than the beginning. But it does
not undercut the beginning, so that a later join can turn the tables.
-/
def Setting.Overtaken (s : Setting) (plans : PlanTable) (order : List Predicate) : Prop :=
  ∃ k kept beginning, 0 < k ∧ k < order.length ∧
    plans.get? (JoinSet.ofList (order.take k)) = some kept ∧
    s.replay none (order.take k) = .ok (some beginning) ∧
    kept.cost.le beginning.cost = true ∧ ¬ s.Undercuts kept beginning

theorem Setting.Overtaken.of_take {s : Setting} {plans : PlanTable} {order : List Predicate}
    {size : Nat} (h : s.Overtaken plans (order.take size)) : s.Overtaken plans order := by
  obtain ⟨k, kept, beginning, hk, hLt, hKept, hBeginning, hLe, hNot⟩ := h
  rw [List.length_take] at hLt
  rw [List.take_take, Nat.min_eq_left (by omega)] at hKept hBeginning
  exact ⟨k, kept, beginning, hk, by omega, hKept, hBeginning, hLe, hNot⟩

/-- No proper beginning of the order produces fewer tuples than the kept plan of its joins. -/
def Setting.NoFewerTuples (s : Setting) (plans : PlanTable) (order : List Predicate) : Prop :=
  ∀ k kept beginning, 0 < k → k < order.length →
    plans.get? (JoinSet.ofList (order.take k)) = some kept →
    s.replay none (order.take k) = .ok (some beginning) →
    kept.cardinality ≤ beginning.cardinality

instance (s : Setting) (plans : PlanTable) (order : List Predicate) :
    Decidable (s.NoFewerTuples plans order) :=
  decidable_of_iff (∀ k < order.length, 0 < k →
    ∀ kept ∈ plans.get? (JoinSet.ofList (order.take k)),
    ∀ found ∈ (s.replay none (order.take k)).toOption, ∀ beginning ∈ found,
      kept.cardinality ≤ beginning.cardinality) <| by
    constructor
    · intro h k kept beginning hk hLt hKept hBeginning
      exact h k hLt hk kept hKept (some beginning) (by rw [hBeginning]; rfl) beginning rfl
    · intro h k hLt hk kept hKept found hFound beginning hBeginning
      obtain rfl := hBeginning
      exact h k kept beginning hk hLt hKept (eq_ok_of_toOption hFound)

/-- Then no kept plan can be caught up with, if scans cost natural numbers. -/
theorem Setting.NoFewerTuples.not_overtaken {s : Setting} {plans : PlanTable}
    {order : List Predicate} (h : s.NoFewerTuples plans order) (hNatural : s.NaturalScans) :
    ¬ s.Overtaken plans order := by
  rintro ⟨k, kept, beginning, hk, hLt, hKept, hBeginning, hLe, hNot⟩
  exact hNot ⟨hLe, Or.inr ⟨hNatural, h k kept beginning hk hLt hKept hBeginning⟩⟩

namespace Searched

variable {s : Setting} {visit : Visit} {joins members order : List Predicate} {size : Nat}
  {plans : PlanTable} {cached replayed : Plan} {p : Predicate}

-- ---------------------------------------------------------------------------
-- Kept plans
-- ---------------------------------------------------------------------------

/-- The kept plan costs no more than any candidate of its set. -/
theorem le_of_lastJoin (h : Searched s visit joins size plans) (hVisit : ∀ l, (visit l).Perm l)
    (hFinite : FiniteCosts s joins size plans) (hWithin : Within joins size members)
    (hPlan : plans.get? ⟨members⟩ = some cached) (hp : p ∈ members) {previous : Option Plan}
    {o : Oriented} (hLast : s.LastJoin plans.get? ⟨members⟩ p previous o) :
    cached.cost.le o.cost = true := by
  have hTrials : s.FiniteTrials plans.get? ⟨members⟩ (visit members) :=
    (hFinite members hWithin).mono fun q hq => (hVisit members).mem_iff.mp hq
  have hBest := h.bestOf hWithin
  rw [hPlan] at hBest
  exact hBest.le_of_lastJoin hTrials ((hVisit members).mem_iff.mpr hp) hLast

-- ---------------------------------------------------------------------------
-- Joins of tables
-- ---------------------------------------------------------------------------

section Tables

variable (h : Searched s visit joins size plans) (hNodup : joins.Nodup)
  (hVisit : ∀ l, (visit l).Perm l) (hScans : s.WholeScans)
  (hKind : ∀ p ∈ joins, p.isSubplan = false)

include h hNodup hVisit hScans hKind

theorem whole_of_get? (hWithin : Within joins size members)
    (hPlan : plans.get? ⟨members⟩ = some cached) : ∃ n, cached.cost = .whole n := by
  obtain ⟨order, hPerm, hGrown⟩ := h.exists_grown hNodup hVisit hWithin hPlan
  exact whole_of_replay hScans
    (fun q hq => hKind q (hWithin.sublist.subset (hPerm.mem_iff.mp hq))) hGrown.replay

/-- Integer costs are finite. -/
theorem finiteCosts_of_whole : FiniteCosts s joins size plans := by
  intro members hWithin p hp previous o hLast
  have hPrevious : ∀ plan, previous = some plan → ∃ n, plan.cost = .whole n := by
    rintro plan rfl
    rcases previousOf?_cases (hWithin.nodup hNodup) hLast.rest with
      ⟨-, hNone⟩ | ⟨other, hRest, hGet, hSome⟩
    · cases hNone
    · cases hSome
      have hErase := (hWithin.mono (Nat.le_succ size)).erase hp hRest
      exact h.whole_of_get? hNodup hVisit hScans hKind hErase hGet
  have hWhole : ∃ n, o.cost = .whole n := by
    rcases hLast.next.cost_cases (hKind p (hWithin.sublist.subset hp)) hScans hPrevious with
      ⟨-, n, hCost⟩ | ⟨_, _, _, _, _, _, _, _, _, _, hCost⟩
    · exact ⟨n, hCost⟩
    · exact ⟨_, hCost⟩
  exact Quantity.finite_of_whole hWhole

/-- A kept plan costs no more than an order whose beginning is undercut by a kept plan. -/
theorem le_of_undercuts (hWithin : Within joins size members)
    (hPerm : (order ++ [p]).Perm members) (hDeep : LeftDeep (order ++ [p])) (hOrder : order ≠ [])
    {kept before : Plan} (hKept : plans.get? ⟨members.erase p⟩ = some kept)
    (hBefore : s.replay none order = .ok (some before)) (hUndercuts : s.Undercuts kept before)
    (hCached : plans.get? ⟨members⟩ = some cached)
    (hExtend : s.extend (some before) p = .ok (some replayed)) :
    cached.cost.le replayed.cost = true := by
  have hFinite := h.finiteCosts_of_whole hNodup hVisit hScans hKind
  have hTable : ∀ q ∈ order ++ [p], q.isSubplan = false :=
    fun q hq => hKind q (hWithin.sublist.subset (hPerm.mem_iff.mp hq))
  obtain ⟨hp, hErase⟩ := List.cons_perm_iff_perm_erase.mp
    ((List.perm_append_singleton p order).symm.trans hPerm)
  have hRest : members.erase p ≠ [] := fun hNil => hOrder (hNil ▸ hErase).eq_nil
  have hWithin' := (hWithin.mono (Nat.le_succ size)).erase hp hRest
  have hKeptFor := h.planFor hNodup hVisit hWithin' hKept
  have hBeforeFor : Executes before.order (members.erase p) := by
    obtain ⟨given, hGiven, hMatch⟩ := executes_of_replay hBefore
    exact ⟨given, hGiven.trans hErase, hMatch⟩
  -- the last join of the order also extends the kept plan
  have hTouches : p.Touches kept.order := by
    rw [touches_iff_of_executes hKeptFor.executes,
      ← touches_iff_of_executes (executes_of_perm hErase)]
    exact (leftDeep_concat.mp hDeep).2 hOrder
  have hPrevious : previousOf? plans.get? ⟨members⟩ p = some (some kept) := by
    rw [previousOf?_eq (hWithin.nodup hNodup), if_neg hRest, hKept, Option.map_some]
  obtain ⟨o, hLast⟩ := (h.bestOf hWithin).estimated p ((hVisit members).mem_iff.mpr hp) (some kept)
    hPrevious fun plan hSome => Option.some.inj hSome ▸ hTouches
  have hReplay := (replay_concat_eq_some_iff hOrder).mpr ⟨before, hBefore, hExtend⟩
  have hReplayWhole := whole_of_replay hScans hTable hReplay
  obtain ⟨o', hNext, hComplete⟩ := extend_eq_some_iff.mp hExtend
  obtain ⟨card, -, rfl⟩ := complete_eq_ok_iff.mp hComplete
  have hKeptLe := h.le_of_lastJoin hVisit hFinite hWithin hCached hp hLast
  have hNextLe := candidate_le_of_undercuts hScans (hTable p (by simp))
    (h.whole_of_get? hNodup hVisit hScans hKind hWithin' hKept)
    (whole_of_replay hScans (fun q hq => hTable q (List.mem_append_left _ hq)) hBefore)
    hKeptFor.executes hBeforeFor hUndercuts hLast.next hNext
  exact Quantity.le_trans
    (Quantity.finite_of_whole (h.whole_of_get? hNodup hVisit hScans hKind hWithin hCached))
    (hFinite members hWithin p hp (some kept) o hLast) (Quantity.finite_of_whole hReplayWhole)
    hKeptLe hNextLe

/-- A kept plan costs no more than a left-deep order of its set, unless the order is overtaken. -/
theorem le_or_overtaken (hWithin : Within joins size members) (hPerm : order.Perm members)
    (hDeep : LeftDeep order) (hCached : plans.get? ⟨members⟩ = some cached)
    (hReplay : s.replay none order = .ok (some replayed)) :
    cached.cost.le replayed.cost = true ∨ s.Overtaken plans order := by
  -- the kept plan of the order without its last join is compared first
  induction order using List.reverseRecOn generalizing members cached replayed with
  | nil => cases hReplay
  | append_singleton order p ih =>
    have hFinite := h.finiteCosts_of_whole hNodup hVisit hScans hKind
    obtain ⟨hp, hErase⟩ := List.cons_perm_iff_perm_erase.mp
      ((List.perm_append_singleton p order).symm.trans hPerm)
    by_cases hOrder : order = []
    · -- a single join is executed as in the order
      subst hOrder
      have hRest : members.erase p = [] := hErase.nil_eq.symm
      rw [List.nil_append, replay_singleton] at hReplay
      obtain ⟨o, hNext, hComplete⟩ := extend_eq_some_iff.mp hReplay
      obtain ⟨card, -, rfl⟩ := complete_eq_ok_iff.mp hComplete
      have hPrevious : previousOf? plans.get? ⟨members⟩ p = some none := by
        rw [previousOf?_eq (hWithin.nodup hNodup), if_pos hRest]
      exact Or.inl (h.le_of_lastJoin hVisit hFinite hWithin hCached hp ⟨hPrevious, hNext⟩)
    · have hRest : members.erase p ≠ [] := fun hNil => hOrder (hNil ▸ hErase).eq_nil
      have hWithin' := (hWithin.mono (Nat.le_succ size)).erase hp hRest
      obtain ⟨hDeep', -⟩ := leftDeep_concat.mp hDeep
      obtain ⟨kept, hKept⟩ :=
        h.exists_plan_of_leftDeep hNodup hVisit hFinite hDeep' hErase hWithin'
      obtain ⟨before, hBefore, hExtend⟩ := (replay_concat_eq_some_iff hOrder).mp hReplay
      have hTake : (order ++ [p]).take order.length = order := List.take_left
      rcases ih hWithin' hErase hDeep' hKept hBefore with hLe | hOvertaken
      · by_cases hUndercuts : s.Undercuts kept before
        · exact Or.inl (h.le_of_undercuts hNodup hVisit hScans hKind hWithin hPerm hDeep hOrder
            hKept hBefore hUndercuts hCached hExtend)
        · refine Or.inr ⟨order.length, kept, before, List.length_pos_iff.mpr hOrder, by simp, ?_⟩
          rw [hTake]
          exact ⟨(plans.get?_ofList fun q => hErase.mem_iff).trans hKept, hBefore, hLe, hUndercuts⟩
      · have hBeginning : s.Overtaken plans ((order ++ [p]).take order.length) := by rwa [hTake]
        exact Or.inr hBeginning.of_take

end Tables

end Searched

end JoinPlanner
