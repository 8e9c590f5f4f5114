import JoinPlanner.Proofs.Search.Cells
import JoinPlanner.Proofs.Search.Known

/-!
# JoinPlanner — replaying orders

An order is replayed by executing its joins one after another, each in its cheaper
orientation. Every plan of a finished table is what some order of its set replays to, and the
table has kept what the beginnings of that order replay to.

* `replay_concat_eq_some_iff` — the last join of an order extends what the others make.
* `sameJoins_of_replay`       — the plan executes the joins of the order, one by one.
* `ensures_replay`            — a left-deep order of known joins can be replayed.
* `Grown`                     — a plan whose beginnings have all been kept in a table.
* `Grown.replay`, `Grown.exists_take` — its order is replayed to it, and so are its beginnings.
* `Grown.exists_step`  — each of its joins was a candidate after the plan of those before.
* `Searched.exists_grown`     — every plan of a finished table has grown in it.
-/

namespace JoinPlanner

open Outcome

namespace Setting

variable {s : Setting} {previous : Option Plan} {p : Predicate} {order : List Predicate}
  {plan : Plan}

-- ---------------------------------------------------------------------------
-- The last join of an order
-- ---------------------------------------------------------------------------

theorem replay_singleton : s.replay previous [p] = s.extend previous p := by
  rw [replay]
  cases s.extend previous p with
  | error e => rfl
  | ok found => cases found <;> rfl

theorem replay_concat (hOrder : order ≠ []) :
    s.replay previous (order ++ [p]) = s.replay previous order >>= fun found =>
      match found with
      | none => .ok none
      | some plan => s.extend (some plan) p := by
  induction order generalizing previous with
  | nil => exact absurd rfl hOrder
  | cons q rest ih =>
    rw [List.cons_append, replay, replay, bind_assoc]
    refine bind_congr fun found => ?_
    cases found with
    | none => rfl
    | some plan =>
      by_cases hRest : rest = []
      · subst hRest
        exact replay_singleton
      · exact ih hRest

theorem replay_concat_eq_some_iff (hOrder : order ≠ []) :
    s.replay none (order ++ [p]) = .ok (some plan) ↔
      ∃ before, s.replay none order = .ok (some before) ∧
        s.extend (some before) p = .ok (some plan) := by
  rw [replay_concat hOrder, bind_eq_ok]
  constructor
  · rintro ⟨found, hFound, hExtend⟩
    cases found with
    | none => cases hExtend
    | some before => exact ⟨before, hFound, hExtend⟩
  · rintro ⟨before, hBefore, hExtend⟩
    exact ⟨some before, hBefore, hExtend⟩

/-- What an order replays to before its last join; nothing if that is its only one. -/
theorem exists_before_of_replay (h : s.replay none (order ++ [p]) = .ok (some plan)) :
    ∃ before, s.replay none order = .ok before ∧ (order ≠ [] → before.isSome) ∧
      s.extend before p = .ok (some plan) := by
  by_cases hOrder : order = []
  · subst hOrder
    rw [List.nil_append, replay_singleton] at h
    exact ⟨none, rfl, fun hNe => absurd rfl hNe, h⟩
  · obtain ⟨before, hBefore, hExtend⟩ := (replay_concat_eq_some_iff hOrder).mp h
    exact ⟨some before, hBefore, fun _ => rfl, hExtend⟩

/-- An extension adds the join to the order, in one of its orientations. -/
theorem order_of_extend (h : s.extend previous p = .ok (some plan)) :
    ∃ q : Predicate, q.SameJoin p ∧ plan.order = orderOf previous ++ [q] := by
  obtain ⟨o, hNext, hComplete⟩ := extend_eq_some_iff.mp h
  obtain ⟨card, -, rfl⟩ := complete_eq_ok_iff.mp hComplete
  exact ⟨o.join, hNext.sameJoin, rfl⟩

/-- The plan executes the joins of the order, one by one. -/
theorem sameJoins_of_replay (h : s.replay none order = .ok (some plan)) :
    List.Forall₂ Predicate.SameJoin plan.order order := by
  induction order using List.reverseRecOn generalizing plan with
  | nil => cases h
  | append_singleton order p ih =>
    obtain ⟨before, hBefore, hSome, hExtend⟩ := exists_before_of_replay h
    obtain ⟨q, hSame, hPlan⟩ := order_of_extend hExtend
    have hOrder : List.Forall₂ Predicate.SameJoin (orderOf before) order := by
      cases before with
      | some plan => exact ih hBefore
      | none =>
        have hNil : order = [] := by
          by_contra hNe
          cases hSome hNe
        rw [hNil]
        exact .nil
    rw [hPlan]
    exact List.rel_append hOrder (.cons hSame .nil)

theorem executes_of_replay (h : s.replay none order = .ok (some plan)) :
    Executes plan.order order :=
  ⟨order, List.Perm.refl _, sameJoins_of_replay h⟩

-- ---------------------------------------------------------------------------
-- Left-deep orders
-- ---------------------------------------------------------------------------

/-- A left-deep order of known joins makes a plan, unless a number leaves its range. -/
theorem ensures_replay (hKnown : ∀ q ∈ order, s.KnownJoin q) (hDeep : LeftDeep order)
    (hOrder : order ≠ []) :
    (s.replay none order).Ensures PlannerError.IsNumberError
      fun found => ∃ plan, found = some plan := by
  induction order using List.reverseRecOn with
  | nil => exact absurd rfl hOrder
  | append_singleton order p ih =>
    obtain ⟨hBefore, hTouches⟩ := leftDeep_concat.mp hDeep
    have hp : s.KnownJoin p := hKnown p (by simp)
    by_cases hNil : order = []
    · subst hNil
      rw [List.nil_append, replay_singleton]
      refine (ensures_extend (fun q hq => by cases hq) hp).mono fun found hExtend _ => ?_
      cases found with
      | some plan => exact ⟨plan, rfl⟩
      | none =>
        obtain ⟨plan, hPlan, -⟩ := extend_eq_none_iff.mp hExtend
        cases hPlan
    · have hFirst := ih (fun q hq => hKnown q (List.mem_append_left _ hq)) hBefore hNil
      rw [replay_concat hNil]
      refine ensures_bind hFirst fun found hFound hSome => ?_
      obtain ⟨before, rfl⟩ := hSome
      have hExecutes := executes_of_replay hFound
      have hOrderKnown : ∀ q ∈ orderOf (some before), s.KnownJoin q := by
        intro q hq
        obtain ⟨r, hr, hSame⟩ := exists_sameJoin_of_mem hExecutes hq
        exact (hKnown r (List.mem_append_left _ hr)).of_sameJoin hSame
      refine (ensures_extend hOrderKnown hp).mono fun found hExtend _ => ?_
      cases found with
      | some plan => exact ⟨plan, rfl⟩
      | none =>
        obtain ⟨plan, hPlan, hNot⟩ := extend_eq_none_iff.mp hExtend
        cases hPlan
        exact absurd ((touches_iff_of_executes hExecutes p).mpr (hTouches hNil)) hNot

end Setting

-- ---------------------------------------------------------------------------
-- The plans of a table
-- ---------------------------------------------------------------------------

/--
The plan has grown join by join, and the table has kept the plan of every beginning. The joins
are listed as they were given; the plan has them as they are executed.
-/
inductive Grown (s : Setting) (plans : PlanTable) : List Predicate → Plan → Prop
  | first {p : Predicate} {plan : Plan} (extended : s.extend none p = .ok (some plan))
      (kept : plans.get? (JoinSet.ofList [p]) = some plan) : Grown s plans [p] plan
  | next {order : List Predicate} {p : Predicate} {before plan : Plan}
      (grown : Grown s plans order before)
      (extended : s.extend (some before) p = .ok (some plan))
      (kept : plans.get? (JoinSet.ofList (order ++ [p])) = some plan) :
      Grown s plans (order ++ [p]) plan

namespace Grown

variable {s : Setting} {plans : PlanTable} {order : List Predicate} {plan : Plan}

theorem ne_nil (h : Grown s plans order plan) : order ≠ [] := by
  cases h with
  | first _ _ => exact List.cons_ne_nil _ _
  | next _ _ _ => simp

theorem kept (h : Grown s plans order plan) :
    plans.get? (JoinSet.ofList order) = some plan := by
  cases h with
  | first _ kept => exact kept
  | next _ _ kept => exact kept

/-- Replaying the joins takes the same steps. -/
theorem replay (h : Grown s plans order plan) : s.replay none order = .ok (some plan) := by
  induction h with
  | first extended _ =>
    rw [Setting.replay_singleton]
    exact extended
  | next grown extended _ ih =>
    exact (Setting.replay_concat_eq_some_iff grown.ne_nil).mpr ⟨_, ih, extended⟩

theorem length_eq (h : Grown s plans order plan) : plan.order.length = order.length :=
  (Setting.sameJoins_of_replay h.replay).length_eq

/-- The plans of the beginnings are the beginnings of the plan. -/
theorem exists_take (h : Grown s plans order plan) {k : Nat} (hk : 0 < k)
    (hLe : k ≤ order.length) :
    ∃ beginning, Grown s plans (order.take k) beginning ∧
      beginning.order = plan.order.take k := by
  induction h with
  | @first p plan extended kept =>
    have hGrown := Grown.first extended kept
    obtain rfl : k = [p].length := Nat.le_antisymm hLe hk
    exact ⟨plan, hGrown, (List.take_of_length_le (Nat.le_of_eq hGrown.length_eq)).symm⟩
  | @next order p before plan grown extended kept ih =>
    by_cases hShort : k ≤ order.length
    · obtain ⟨beginning, hGrown, hOrder⟩ := ih hShort
      obtain ⟨q, -, hPlan⟩ := Setting.order_of_extend extended
      rw [List.take_append_of_le_length hShort, hPlan]
      refine ⟨beginning, hGrown, hOrder.trans ?_⟩
      exact (List.take_append_of_le_length (grown.length_eq ▸ hShort)).symm
    · have hAll : (order ++ [p]).length ≤ k := by
        rw [List.length_append, List.length_singleton]
        omega
      have hGrown := Grown.next grown extended kept
      rw [List.take_of_length_le hAll, List.take_of_length_le (hGrown.length_eq ▸ hAll)]
      exact ⟨plan, hGrown, rfl⟩

/-- Every join was executed after the plan that is kept for the joins before it. -/
theorem exists_step (h : Grown s plans order plan) {k : Nat} (hk : k < order.length) :
    ∃ previous o kept, s.Candidate previous order[k] o ∧ s.complete previous o = .ok kept ∧
      previous = (if k = 0 then none else plans.get? (JoinSet.ofList (order.take k))) ∧
      plans.get? (JoinSet.ofList (order.take (k + 1))) = some kept ∧
      Setting.orderOf previous = plan.order.take k ∧ plan.order[k]? = some o.join := by
  induction h with
  | @first p plan extended kept =>
    obtain rfl : k = 0 := Nat.lt_one_iff.mp hk
    obtain ⟨o, hNext, hComplete⟩ := Setting.extend_eq_some_iff.mp extended
    obtain ⟨card, -, hPlan⟩ := Setting.complete_eq_ok_iff.mp hComplete
    exact ⟨none, o, plan, hNext, hComplete, rfl, kept, rfl, by rw [hPlan]; rfl⟩
  | @next order p before plan grown extended kept ih =>
    obtain ⟨o, hNext, hComplete⟩ := Setting.extend_eq_some_iff.mp extended
    obtain ⟨card, -, hPlan⟩ := Setting.complete_eq_ok_iff.mp hComplete
    have hOrder : plan.order = before.order ++ [o.join] := by
      rw [hPlan]
      rfl
    have hLength := grown.length_eq
    rcases Nat.lt_or_ge k order.length with hShort | hLast
    · obtain ⟨previous, o', kept', hNext', hComplete', hPrevious, hKept, hBefore, hJoin⟩ :=
        ih hShort
      refine ⟨previous, o', kept', ?_, hComplete', ?_, ?_, ?_, ?_⟩
      · rwa [List.getElem_append_left hShort]
      · rwa [List.take_append_of_le_length (Nat.le_of_lt hShort)]
      · rwa [List.take_append_of_le_length hShort]
      · rwa [hOrder, List.take_append_of_le_length (by omega)]
      · rwa [hOrder, List.getElem?_append_left (by omega)]
    · -- the last join follows the plan of all others
      obtain rfl : k = order.length := by
        rw [List.length_append, List.length_singleton] at hk
        omega
      have hPos : order.length ≠ 0 := mt List.length_eq_zero_iff.mp grown.ne_nil
      refine ⟨some before, o, plan, ?_, hComplete, ?_, ?_, ?_, ?_⟩
      · rwa [List.getElem_concat_length rfl]
      · rw [if_neg hPos, List.take_left, grown.kept]
      · rw [List.take_of_length_le (by simp), kept]
      · rw [hOrder, ← hLength, List.take_left]
        rfl
      · rw [hOrder, ← hLength, List.getElem?_concat_length]

end Grown

/-- Every plan of a finished table has grown in it. -/
theorem Searched.exists_grown {s : Setting} {visit : Visit} {joins members : List Predicate}
    {size : Nat} {plans : PlanTable} {plan : Plan} (h : Searched s visit joins size plans)
    (hNodup : joins.Nodup) (hVisit : ∀ l, (visit l).Perm l) (hWithin : Within joins size members)
    (hPlan : plans.get? ⟨members⟩ = some plan) :
    ∃ order, order.Perm members ∧ Grown s plans order plan := by
  induction hLength : members.length generalizing members plan with
  | zero => exact absurd (List.length_eq_zero_iff.mp hLength) hWithin.nonempty
  | succ length ih =>
    obtain ⟨p, hp, previous, o, hLast, hComplete⟩ := (h.bestOf hWithin).attained plan hPlan
    have hMem : p ∈ members := (hVisit members).mem_iff.mp hp
    have hExtend := Setting.extend_eq_some_iff.mpr ⟨o, hLast.next, hComplete⟩
    have hPerm : ∀ {order}, order.Perm (members.erase p) → (order ++ [p]).Perm members :=
      fun hOrder => (List.perm_append_singleton p _).trans
        ((hOrder.cons p).trans (List.perm_cons_erase hMem).symm)
    have hKept : ∀ {order}, order.Perm members → plans.get? (JoinSet.ofList order) = some plan :=
      fun hOrder => (plans.get?_ofList fun q => hOrder.mem_iff).trans hPlan
    rcases Setting.previousOf?_cases (hWithin.nodup hNodup) hLast.rest with
      ⟨hRest, rfl⟩ | ⟨before, hRest, hBefore, rfl⟩
    · have hEmpty : List.Perm [] (members.erase p) := by rw [hRest]
      exact ⟨[p], hPerm hEmpty, .first hExtend (hKept (hPerm hEmpty))⟩
    · have hErase := (hWithin.mono (Nat.le_succ size)).erase hMem hRest
      have hErased : (members.erase p).length = length := by
        rw [List.length_erase_of_mem hMem, hLength]
        rfl
      obtain ⟨order, hOrder, hGrown⟩ := ih hErase hBefore hErased
      exact ⟨order ++ [p], hPerm hOrder, .next hGrown hExtend (hKept (hPerm hOrder))⟩

end JoinPlanner
