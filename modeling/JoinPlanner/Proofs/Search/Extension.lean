import JoinPlanner.Proofs.LeftDeep
import JoinPlanner.Proofs.Outcome
import JoinPlanner.Search.Levels

/-!
# JoinPlanner — extending a plan, step by step

What the next join of a plan reads and costs, as relations that later proofs take apart
instead of the functions.

* `touches_iff`       — a predicate touches a plan if one of its sides does.
* `Setting.Inputs`    — the inputs of the next join, by the side of the plan so far.
* `orient_cases`      — the orientation that is chosen.
* `Setting.Candidate` — a join that can be executed next, as it is oriented.
* `bind_inputs?_eq_ok_iff` — an extension does something with a candidate, if there is one.
* `extendBelow_eq_some_iff`, `extendBelow_eq_none_iff`, `extend_eq_some_iff`,
  `extend_eq_none_iff` — a plan is extended exactly by a candidate; the bound only leaves out
  costly ones.
-/

namespace JoinPlanner

open Outcome

-- ---------------------------------------------------------------------------
-- Tables of an order
-- ---------------------------------------------------------------------------

theorem joinsTable_iff {order : List Predicate} {table : Option String} :
    joinsTable order table = true ↔
      ∃ q ∈ order, ∃ a : String, table = some a ∧ some a ∈ q.tables := by
  rw [joinsTable, Bool.and_eq_true, List.any_eq_true, Option.isSome_iff_exists]
  constructor
  · rintro ⟨⟨a, rfl⟩, q, hq, hJoins⟩
    exact ⟨q, hq, a, rfl, List.contains_iff_mem.mp hJoins⟩
  · rintro ⟨q, hq, a, rfl, hMem⟩
    exact ⟨⟨a, rfl⟩, q, hq, List.contains_iff_mem.mpr hMem⟩

/-- A predicate touches an order on its left or on its right; a subquery touches nothing. -/
theorem touches_iff {p : Predicate} {order : List Predicate} :
    p.Touches order ↔ joinsTable order p.left.table = true ∨
      (p.isSubplan = false ∧ joinsTable order p.right.table = true) := by
  obtain ⟨kind, left, operator, right⟩ := p
  simp only [joinsTable_iff, Predicate.Touches]
  cases kind with
  | subplan =>
    constructor
    · rintro ⟨q, hq, a, hMem, hTable⟩
      exact Or.inl ⟨q, hq, a, (List.mem_singleton.mp hMem).symm, hTable⟩
    · rintro (⟨q, hq, a, hLeft, hTable⟩ | ⟨hKind, -⟩)
      · exact ⟨q, hq, a, List.mem_singleton.mpr hLeft.symm, hTable⟩
      · cases hKind
  | table =>
    simp only [Predicate.tables, List.mem_filter, List.mem_cons, List.not_mem_nil, or_false,
      Option.isSome_some, and_true]
    constructor
    · rintro ⟨q, hq, a, hLeft | hRight, hTable⟩
      · exact Or.inl ⟨q, hq, a, hLeft.symm, hTable⟩
      · exact Or.inr ⟨rfl, q, hq, a, hRight.symm, hTable⟩
    · rintro (⟨q, hq, a, hLeft, hTable⟩ | ⟨-, q, hq, a, hRight, hTable⟩)
      · exact ⟨q, hq, a, Or.inl hLeft.symm, hTable⟩
      · exact ⟨q, hq, a, Or.inr hRight.symm, hTable⟩

/-- Orders of the same joins have the same tables. -/
theorem joinsTable_eq_of_executes {order other joins : List Predicate} (h : Executes order joins)
    (h' : Executes other joins) (table : Option String) :
    joinsTable order table = joinsTable other table := by
  -- one direction, for any two orders
  have hOne : ∀ {xs ys : List Predicate}, Executes xs joins → Executes ys joins →
      joinsTable xs table = true → joinsTable ys table = true := by
    intro xs ys hxs hys hTable
    obtain ⟨q, hq, a, rfl, hMem⟩ := joinsTable_iff.mp hTable
    obtain ⟨p, hp, hSame⟩ := exists_sameJoin_of_mem hxs hq
    obtain ⟨r, hr, hSame'⟩ := exists_mem_of_executes hys hp
    exact joinsTable_iff.mpr
      ⟨r, hr, a, rfl, hSame'.mem_tables_iff.mpr (hSame.mem_tables_iff.mp hMem)⟩
  rw [Bool.eq_iff_iff]
  exact ⟨hOne h h', hOne h' h⟩

-- ---------------------------------------------------------------------------
-- Orientation
-- ---------------------------------------------------------------------------

theorem asGiven_eq_ok_iff {p : Predicate} {l r : JoinInput} {o : Oriented} :
    asGiven p l r = .ok o ↔ ∃ cost,
      joinCost p l.cardinality r.cardinality l.cost r.cost = .ok cost ∧ o = ⟨p, l, r, cost⟩ := by
  simp only [asGiven, bind_eq_ok, pure_eq_ok]
  refine exists_congr fun cost => and_congr_right fun _ => ?_
  exact eq_comm

/-- A join with a subplan stays as it is; of the others the strictly cheaper form is taken. -/
theorem orient_cases {p : Predicate} {l r : JoinInput} {o : Oriented}
    (h : orient p l r = .ok o) :
    (p.isSubplan = true ∧ asGiven p l r = .ok o) ∨
    (p.isSubplan = false ∧ ∃ given exchanged, asGiven p l r = .ok given ∧
      asGiven p.flipped r l = .ok exchanged ∧
      o = if exchanged.cost.lt given.cost then exchanged else given) := by
  simp only [orient, bind_eq_ok] at h
  obtain ⟨given, hGiven, h⟩ := h
  cases hKind : p.isSubplan with
  | true =>
    rw [hKind, if_pos rfl, pure_eq_ok] at h
    subst h
    exact Or.inl ⟨rfl, hGiven⟩
  | false =>
    simp only [hKind, Bool.false_eq_true, if_false, bind_eq_ok, pure_eq_ok] at h
    obtain ⟨exchanged, hExchanged, h⟩ := h
    exact Or.inr ⟨rfl, given, exchanged, hGiven, hExchanged, h.symm⟩

/-- An oriented join is the join, perhaps with its sides exchanged. -/
theorem sameJoin_of_orient {p : Predicate} {l r : JoinInput} {o : Oriented}
    (h : orient p l r = .ok o) : o.join.SameJoin p := by
  rcases orient_cases h with ⟨-, hGiven⟩ | ⟨-, given, exchanged, hGiven, hExchanged, rfl⟩
  · obtain ⟨cost, -, rfl⟩ := asGiven_eq_ok_iff.mp hGiven
    exact Predicate.SameJoin.refl p
  · obtain ⟨cost, -, rfl⟩ := asGiven_eq_ok_iff.mp hGiven
    obtain ⟨cost', -, rfl⟩ := asGiven_eq_ok_iff.mp hExchanged
    split
    · exact Or.inr rfl
    · exact Or.inl rfl

namespace Setting

variable {s : Setting} {previous : Option Plan} {p : Predicate} {l r : JoinInput}

-- ---------------------------------------------------------------------------
-- Inputs
-- ---------------------------------------------------------------------------

/-- The inputs of the next join: two scans, or the plan so far on the side that it shares. -/
inductive Inputs (s : Setting) : Option Plan → Predicate → JoinInput → JoinInput → Prop
  | first {p : Predicate} {l r : JoinInput} (left : s.scanInput p.left = .ok l)
      (right : s.innerInput p = .ok r) : Inputs s none p l r
  | onLeft {plan : Plan} {p : Predicate} {l r : JoinInput}
      (shared : joinsTable plan.order p.left.table = true) (left : s.planInput plan = .ok l)
      (right : s.innerInput p = .ok r) : Inputs s (some plan) p l r
  | onRight {plan : Plan} {p : Predicate} {l r : JoinInput}
      (fresh : joinsTable plan.order p.left.table = false) (kind : p.isSubplan = false)
      (shared : joinsTable plan.order p.right.table = true) (right : s.planInput plan = .ok r)
      (left : s.scanInput p.left = .ok l) : Inputs s (some plan) p l r

theorem inputs?_eq_some_iff :
    s.inputs? previous p = .ok (some (l, r)) ↔ s.Inputs previous p l r := by
  constructor
  · intro h
    cases previous with
    | none =>
      simp only [inputs?, bind_eq_ok, pure_eq_ok, Option.some.injEq, Prod.mk.injEq] at h
      obtain ⟨left, hLeft, right, hRight, rfl, rfl⟩ := h
      exact .first hLeft hRight
    | some plan =>
      simp only [inputs?] at h
      split at h
      · simp only [bind_eq_ok, pure_eq_ok, Option.some.injEq, Prod.mk.injEq] at h
        obtain ⟨left, hLeft, right, hRight, rfl, rfl⟩ := h
        exact .onLeft ‹_› hLeft hRight
      · rename_i hFresh
        split at h
        · rename_i hShared
          simp only [bind_eq_ok, pure_eq_ok, Option.some.injEq, Prod.mk.injEq] at h
          obtain ⟨right, hRight, left, hLeft, rfl, rfl⟩ := h
          rw [Bool.and_eq_true, Bool.not_eq_true'] at hShared
          exact .onRight (Bool.eq_false_iff.mpr hFresh) hShared.1 hShared.2 hRight hLeft
        · cases h
  · intro h
    cases h with
    | first left right => simp [inputs?, left, right]; rfl
    | onLeft shared left right => simp [inputs?, shared, left, right]; rfl
    | onRight fresh kind shared right left => simp [inputs?, fresh, kind, shared, left, right]; rfl

/-- Two inputs that are read one after the other are there, if the reading succeeds. -/
theorem both_ne_none {x y : Outcome JoinInput} {f : JoinInput → JoinInput → JoinInput × JoinInput} :
    (do let a ← x; let b ← y; return some (f a b) : Outcome _) ≠ .ok none := by
  intro h
  simp only [bind_eq_ok, pure_eq_ok] at h
  obtain ⟨a, -, b, -, h⟩ := h
  cases h

/-- There are no inputs exactly if the join shares no table with the plan so far. -/
theorem inputs?_eq_none_iff : s.inputs? previous p = .ok none ↔
    ∃ plan, previous = some plan ∧ ¬ p.Touches plan.order := by
  cases previous with
  | none => exact iff_of_false both_ne_none (by simp)
  | some plan =>
    have hIff : (∃ other, some plan = some other ∧ ¬ p.Touches other.order) ↔
        ¬ p.Touches plan.order := by simp
    rw [hIff, touches_iff, inputs?]
    by_cases hLeft : joinsTable plan.order p.left.table = true
    · rw [if_pos hLeft]
      exact iff_of_false both_ne_none (not_not_intro (Or.inl hLeft))
    · rw [if_neg hLeft]
      by_cases hRight : p.isSubplan = false ∧ joinsTable plan.order p.right.table = true
      · rw [if_pos (by simp [hRight])]
        exact iff_of_false both_ne_none (not_not_intro (Or.inr hRight))
      · rw [if_neg (by simpa using hRight), pure_eq_ok]
        exact iff_of_true rfl (not_or.mpr ⟨hLeft, hRight⟩)

theorem Inputs.touches {plan : Plan} (h : s.Inputs (some plan) p l r) : p.Touches plan.order := by
  rw [touches_iff]
  cases h with
  | onLeft shared _ _ => exact Or.inl shared
  | onRight _ kind shared _ _ => exact Or.inr ⟨kind, shared⟩

-- ---------------------------------------------------------------------------
-- Candidates
-- ---------------------------------------------------------------------------

/-- The join can be executed next, in the given orientation. -/
def Candidate (s : Setting) (previous : Option Plan) (p : Predicate) (o : Oriented) : Prop :=
  ∃ l r, s.Inputs previous p l r ∧ orient p l r = .ok o

variable {o : Oriented} {plan : Plan}

theorem Candidate.sameJoin (h : s.Candidate previous p o) : o.join.SameJoin p := by
  obtain ⟨l, r, -, hOrient⟩ := h
  exact sameJoin_of_orient hOrient

/-- The cost is that of the oriented join with its left input as the outer one. -/
theorem Candidate.joinCost_eq (h : s.Candidate previous p o) :
    joinCost o.join o.left.cardinality o.right.cardinality o.left.cost o.right.cost =
      .ok o.cost := by
  obtain ⟨l, r, -, hOrient⟩ := h
  have hGiven : ∀ {q : Predicate} {l r : JoinInput} {o : Oriented}, asGiven q l r = .ok o →
      joinCost o.join o.left.cardinality o.right.cardinality o.left.cost o.right.cost =
        .ok o.cost := by
    intro q l r o h
    obtain ⟨cost, hCost, rfl⟩ := asGiven_eq_ok_iff.mp h
    exact hCost
  rcases orient_cases hOrient with ⟨-, hFirst⟩ | ⟨-, given, exchanged, hFirst, hSecond, rfl⟩
  · exact hGiven hFirst
  · split
    · exact hGiven hSecond
    · exact hGiven hFirst

/-- A plan that is not the first one is only extended by a join that touches it. -/
theorem Candidate.touches (h : s.Candidate previous p o) (hOrder : orderOf previous ≠ []) :
    p.Touches (orderOf previous) := by
  obtain ⟨l, r, hInputs, -⟩ := h
  cases previous with
  | none => exact absurd rfl hOrder
  | some plan => exact hInputs.touches

/-- The candidate, as it is worked out. -/
def oriented? (s : Setting) (previous : Option Plan) (p : Predicate) : Option Oriented :=
  match s.inputs? previous p with
  | .ok (some (l, r)) => (orient p l r).toOption
  | _ => none

theorem candidate_iff_oriented? : s.Candidate previous p o ↔ s.oriented? previous p = some o := by
  constructor
  · rintro ⟨l, r, hInputs, hOrient⟩
    rw [oriented?, inputs?_eq_some_iff.mpr hInputs]
    show (orient p l r).toOption = some o
    rw [hOrient]
    rfl
  · intro h
    rw [oriented?] at h
    split at h
    · rename_i l r hInputs
      cases hOrient : orient p l r with
      | error e =>
        rw [hOrient] at h
        cases h
      | ok o' =>
        rw [hOrient] at h
        cases h
        exact ⟨l, r, inputs?_eq_some_iff.mp hInputs, hOrient⟩
    · cases h

theorem Candidate.unique {o' : Oriented} (h : s.Candidate previous p o)
    (h' : s.Candidate previous p o') : o = o' :=
  Option.some.inj ((candidate_iff_oriented?.mp h).symm.trans (candidate_iff_oriented?.mp h'))

theorem complete_eq_ok_iff : s.complete previous o = .ok plan ↔ ∃ cardinality,
    s.joinCardinality o.join o.left.cardinality o.right.cardinality o.left.key o.right.key
      = .ok cardinality ∧ plan = ⟨o.cost, cardinality, orderOf previous ++ [o.join]⟩ := by
  simp only [complete, bind_eq_ok, pure_eq_ok]
  refine exists_congr fun cardinality => and_congr_right fun _ => ?_
  exact eq_comm

/-- The inputs of a join, if it has any, make a candidate; the rest is done with that. -/
theorem bind_inputs?_eq_ok_iff {f : Oriented → Outcome (Option Plan)} {found : Option Plan} :
    (do match ← s.inputs? previous p with
      | none => return none
      | some (l, r) => f (← orient p l r) : Outcome (Option Plan)) = .ok found ↔
      (found = none ∧ ∃ plan, previous = some plan ∧ ¬ p.Touches plan.order) ∨
        ∃ o, s.Candidate previous p o ∧ f o = .ok found := by
  rw [← inputs?_eq_none_iff, bind_eq_ok]
  constructor
  · rintro ⟨inputs, hInputs, h⟩
    rcases inputs with _ | ⟨l, r⟩
    · exact Or.inl ⟨(Except.ok.inj h).symm, hInputs⟩
    · simp only [bind_eq_ok, liftM_number, ofNumber_eq_ok] at h
      obtain ⟨o, hOrient, h⟩ := h
      exact Or.inr ⟨o, ⟨l, r, inputs?_eq_some_iff.mp hInputs, hOrient⟩, h⟩
  · rintro (⟨rfl, hInputs⟩ | ⟨o, ⟨l, r, hInputs, hOrient⟩, h⟩)
    · exact ⟨none, hInputs, rfl⟩
    · refine ⟨some (l, r), inputs?_eq_some_iff.mpr hInputs, ?_⟩
      simp only [bind_eq_ok, liftM_number, ofNumber_eq_ok]
      exact ⟨o, hOrient, h⟩

/-- A plan is extended exactly by a candidate that is below the bound. -/
theorem extendBelow_eq_some_iff {bound : Cost} :
    s.extendBelow bound previous p = .ok (some plan) ↔
      ∃ o, s.Candidate previous p o ∧ bound.le o.cost = false ∧
        s.complete previous o = .ok plan := by
  refine Iff.trans bind_inputs?_eq_ok_iff ?_
  simp only [reduceCtorEq, false_and, false_or]
  refine exists_congr fun o => and_congr_right fun _ => ?_
  cases hBound : bound.le o.cost <;> simp [pure_eq_ok, map_eq_ok]

/-- A plan is not extended if the join shares no table with it or the bound is reached. -/
theorem extendBelow_eq_none_iff {bound : Cost} :
    s.extendBelow bound previous p = .ok none ↔
      (∃ plan, previous = some plan ∧ ¬ p.Touches plan.order) ∨
        ∃ o, s.Candidate previous p o ∧ bound.le o.cost = true := by
  refine Iff.trans bind_inputs?_eq_ok_iff ?_
  simp only [true_and]
  refine or_congr_right (exists_congr fun o => and_congr_right fun _ => ?_)
  cases hBound : bound.le o.cost <;> simp [pure_eq_ok, map_eq_ok]

/-- A candidate is completed unless the bound is reached. -/
theorem extendBelow_of_candidate (h : s.Candidate previous p o) (bound : Cost) :
    s.extendBelow bound previous p =
      if bound.le o.cost then .ok none else (s.complete previous o).map some := by
  obtain ⟨l, r, hInputs, hOrient⟩ := h
  rw [extendBelow, inputs?_eq_some_iff.mpr hInputs]
  show (liftM (orient p l r) >>= fun o => _ : Outcome (Option Plan)) = _
  rw [hOrient]
  show (if bound.le o.cost then .ok none
    else s.complete previous o >>= fun plan => .ok (some plan) : Outcome (Option Plan)) = _
  cases s.complete previous o <;> rfl

/-- Without a bound every candidate extends the plan. -/
theorem extend_eq_some_iff : s.extend previous p = .ok (some plan) ↔
    ∃ o, s.Candidate previous p o ∧ s.complete previous o = .ok plan := by
  refine Iff.trans bind_inputs?_eq_ok_iff ?_
  simp [map_eq_ok]

theorem extend_eq_none_iff : s.extend previous p = .ok none ↔
    ∃ plan, previous = some plan ∧ ¬ p.Touches plan.order := by
  refine Iff.trans bind_inputs?_eq_ok_iff ?_
  simp [map_eq_ok]

end Setting

end JoinPlanner
