import JoinPlanner.Proofs.NotNegative
import JoinPlanner.Proofs.Search.Replay

/-!
# JoinPlanner — integer costs

Joins of tables cost integers if the pages of all tables do. Then a join is never cheaper
after a plan that costs more, unless that plan produces fewer tuples: the cost of a nested
loop grows with the costs of both inputs, and with their cardinalities if nothing about the
other input is negative.

* `nestedCost`          — the cost of a nested loop.
* `orient_whole`        — the chosen orientation is the cheaper nested loop.
* `WholeScans`          — scans cost integers and produce natural numbers of tuples.
* `whole_of_replay`     — so do all plans.
* `Undercuts`           — a plan that cannot lose its advantage later.
* `candidate_le_of_undercuts` — the same join after such a plan costs no more.
-/

namespace JoinPlanner

open Outcome

-- ---------------------------------------------------------------------------
-- Nested loops
-- ---------------------------------------------------------------------------

/-- The outer input is computed once, the inner one for each of its tuples. -/
def nestedCost (outerCost outerCard innerCost innerCard : Int) : Int :=
  outerCost + outerCard * innerCost + outerCard * innerCard

theorem nestedCost_le_of_outer {cost cost' card innerCost innerCard : Int} (h : cost ≤ cost') :
    nestedCost cost card innerCost innerCard ≤ nestedCost cost' card innerCost innerCard := by
  unfold nestedCost
  omega

/-- A dearer and larger outer input makes a nested loop dearer. -/
theorem nestedCost_le_outer {cost cost' card card' innerCost innerCard : Int} (hCost : cost ≤ cost')
    (hCard : card ≤ card') (hInnerCost : 0 ≤ innerCost) (hInnerCard : 0 ≤ innerCard) :
    nestedCost cost card innerCost innerCard ≤ nestedCost cost' card' innerCost innerCard := by
  have hReads := Int.mul_le_mul_of_nonneg_right hCard hInnerCost
  have hPairs := Int.mul_le_mul_of_nonneg_right hCard hInnerCard
  unfold nestedCost
  omega

/-- A dearer and larger inner input makes a nested loop dearer. -/
theorem nestedCost_le_inner {cost cost' card card' outerCost outerCard : Int} (hCost : cost ≤ cost')
    (hCard : card ≤ card') (hOuterCard : 0 ≤ outerCard) :
    nestedCost outerCost outerCard cost card ≤ nestedCost outerCost outerCard cost' card' := by
  have hReads := Int.mul_le_mul_of_nonneg_left hCost hOuterCard
  have hPairs := Int.mul_le_mul_of_nonneg_left hCard hOuterCard
  unfold nestedCost
  omega

theorem joinCost_whole {p : Predicate} (hKind : p.isSubplan = false) (outerCard innerCard : Int)
    (outerCost innerCost : Int) :
    joinCost p outerCard innerCard (.whole outerCost) (.whole innerCost) =
      .ok (.whole (nestedCost outerCost outerCard innerCost innerCard)) := by
  rw [joinCost, hKind]
  rfl

/-- Of the two nested loops the cheaper one is chosen. -/
theorem orient_whole {p : Predicate} {l r : JoinInput} {o : Oriented} {lCost rCost : Int}
    (hKind : p.isSubplan = false) (hl : l.cost = .whole lCost) (hr : r.cost = .whole rCost)
    (h : orient p l r = .ok o) :
    o.cost = .whole (min (nestedCost lCost l.cardinality rCost r.cardinality)
      (nestedCost rCost r.cardinality lCost l.cardinality)) := by
  rcases orient_cases h with ⟨hSubplan, -⟩ | ⟨-, given, exchanged, hGiven, hExchanged, rfl⟩
  · cases hSubplan.symm.trans hKind
  · obtain ⟨cost, hCost, rfl⟩ := asGiven_eq_ok_iff.mp hGiven
    obtain ⟨cost', hCost', rfl⟩ := asGiven_eq_ok_iff.mp hExchanged
    rw [hl, hr, joinCost_whole hKind, Except.ok.injEq] at hCost
    rw [hl, hr, joinCost_whole (p.isSubplan_flipped.trans hKind), Except.ok.injEq] at hCost'
    subst hCost hCost'
    split
    · rename_i hLess
      have hLt := Quantity.whole_lt_iff.mp hLess
      exact congrArg Number.whole (by omega)
    · rename_i hNot
      have hLe := mt Quantity.whole_lt_iff.mpr hNot
      exact congrArg Number.whole (by omega)

namespace Setting

variable {s : Setting} {previous : Option Plan} {p : Predicate} {order : List Predicate}
  {plan : Plan} {o : Oriented}

-- ---------------------------------------------------------------------------
-- Scans
-- ---------------------------------------------------------------------------

/-- Scans cost integers and produce natural numbers of tuples. -/
structure WholeScans (s : Setting) : Prop where
  cost : ∀ side input, s.scanInput side = .ok input → ∃ n, input.cost = .whole n
  cardinality : ∀ side input, s.scanInput side = .ok input → 0 ≤ input.cardinality

/-- Scans cost natural numbers. -/
def NaturalScans (s : Setting) : Prop :=
  ∀ side input, s.scanInput side = .ok input → ∀ n, input.cost = .whole n → 0 ≤ n

theorem innerInput_of_table (hKind : p.isSubplan = false) :
    s.innerInput p = s.scanInput p.right := by
  rw [innerInput, hKind]
  rfl

theorem planInput_cost {input : JoinInput} (h : s.planInput plan = .ok input) :
    input.cost = plan.cost ∧ input.cardinality = plan.cardinality := by
  rw [planInput, bind_eq_ok] at h
  obtain ⟨key, -, h⟩ := h
  rw [pure_eq_ok] at h
  subst h
  exact ⟨rfl, rfl⟩

/-- The cost of a join of tables: two scans, or the plan so far and a scan. -/
theorem Candidate.cost_cases (h : s.Candidate previous p o) (hKind : p.isSubplan = false)
    (hScans : s.WholeScans) (hPrevious : ∀ plan, previous = some plan → ∃ n, plan.cost = .whole n) :
    (previous = none ∧ ∃ n, o.cost = .whole n) ∨
    ∃ plan cost scan scanCost side, previous = some plan ∧ plan.cost = .whole cost ∧
      s.scanInput side = .ok scan ∧ scan.cost = .whole scanCost ∧
      side = (if joinsTable plan.order p.left.table then p.right else p.left) ∧
      o.cost = .whole (min (nestedCost cost plan.cardinality scanCost scan.cardinality)
        (nestedCost scanCost scan.cardinality cost plan.cardinality)) := by
  obtain ⟨l, r, hInputs, hOrient⟩ := h
  cases hInputs with
  | first left right =>
    rw [innerInput_of_table hKind] at right
    obtain ⟨m, hm⟩ := hScans.cost _ _ left
    obtain ⟨n, hn⟩ := hScans.cost _ _ right
    exact Or.inl ⟨rfl, _, orient_whole hKind hm hn hOrient⟩
  | @onLeft plan _ _ _ shared left right =>
    rw [innerInput_of_table hKind] at right
    obtain ⟨cost, hCost⟩ := hPrevious plan rfl
    obtain ⟨hl, hCard⟩ := planInput_cost left
    obtain ⟨n, hn⟩ := hScans.cost _ _ right
    refine Or.inr ⟨plan, cost, r, n, p.right, rfl, hCost, right, hn, (if_pos shared).symm, ?_⟩
    rw [orient_whole hKind (hl.trans hCost) hn hOrient, hCard]
  | @onRight plan _ _ _ fresh kind shared right left =>
    obtain ⟨cost, hCost⟩ := hPrevious plan rfl
    obtain ⟨hr, hCard⟩ := planInput_cost right
    obtain ⟨n, hn⟩ := hScans.cost _ _ left
    have hSide : joinsTable plan.order p.left.table ≠ true := Bool.eq_false_iff.mp fresh
    refine Or.inr ⟨plan, cost, l, n, p.left, rfl, hCost, left, hn, (if_neg hSide).symm, ?_⟩
    rw [orient_whole hKind hn (hr.trans hCost) hOrient, hCard, Int.min_comm]

/-- Plans of table joins cost integers. -/
theorem whole_of_replay (hScans : s.WholeScans) (hKind : ∀ q ∈ order, q.isSubplan = false)
    (h : s.replay none order = .ok (some plan)) : ∃ n, plan.cost = .whole n := by
  induction order using List.reverseRecOn generalizing plan with
  | nil => cases h
  | append_singleton order p ih =>
    obtain ⟨before, hBefore, -, hExtend⟩ := exists_before_of_replay h
    obtain ⟨o, hNext, hComplete⟩ := extend_eq_some_iff.mp hExtend
    obtain ⟨card, -, rfl⟩ := complete_eq_ok_iff.mp hComplete
    have hPrevious : ∀ plan, before = some plan → ∃ n, plan.cost = .whole n := by
      rintro plan rfl
      exact ih (fun q hq => hKind q (List.mem_append_left _ hq)) hBefore
    rcases hNext.cost_cases (hKind p (by simp)) hScans hPrevious with
      ⟨-, n, hCost⟩ | ⟨_, _, _, _, _, _, _, _, _, _, hCost⟩
    · exact ⟨n, hCost⟩
    · exact ⟨_, hCost⟩

-- ---------------------------------------------------------------------------
-- Advantages that last
-- ---------------------------------------------------------------------------

/--
One plan costs no more than another, and no later join can change that: both produce the
same number of tuples, or scans cost natural numbers and the first plan produces no more.
-/
structure Undercuts (s : Setting) (plan other : Plan) : Prop where
  cost : plan.cost.le other.cost = true
  cardinality : plan.cardinality = other.cardinality ∨
    (s.NaturalScans ∧ plan.cardinality ≤ other.cardinality)

/-- The same join costs no more after a plan that undercuts the other one. -/
theorem candidate_le_of_undercuts {other : Plan} {o' : Oriented} {joins : List Predicate}
    (hScans : s.WholeScans) (hKind : p.isSubplan = false)
    (hCost : ∃ n, plan.cost = .whole n) (hCost' : ∃ n, other.cost = .whole n)
    (hExecutes : Executes plan.order joins) (hExecutes' : Executes other.order joins)
    (hUndercuts : s.Undercuts plan other) (h : s.Candidate (some plan) p o)
    (h' : s.Candidate (some other) p o') : o.cost.le o'.cost = true := by
  have hWhole : ∀ {x : Plan}, (∃ n, x.cost = .whole n) →
      ∀ y, some x = some y → ∃ n, y.cost = .whole n := by
    rintro x hx y hxy
    cases hxy
    exact hx
  rcases h.cost_cases hKind hScans (hWhole hCost) with
    ⟨hNone, -⟩ | ⟨_, cost, scan, n, side, hSome, hc, hScan, hn, hSide, ho⟩
  · cases hNone
  rcases h'.cost_cases hKind hScans (hWhole hCost') with
    ⟨hNone, -⟩ | ⟨_, cost', scan', n', side', hSome', hc', hScan', hn', hSide', ho'⟩
  · cases hNone
  cases hSome
  cases hSome'
  -- both plans are on the same side of the join, beside the same scan
  rw [joinsTable_eq_of_executes hExecutes hExecutes' p.left.table, ← hSide'] at hSide
  subst hSide
  obtain rfl := Except.ok.inj (hScan.symm.trans hScan')
  obtain rfl := Number.whole.inj (hn.symm.trans hn')
  have hScanCard := hScans.cardinality _ _ hScan
  have hLe : cost ≤ cost' := by
    have hLe := hUndercuts.cost
    rw [hc, hc'] at hLe
    exact Quantity.whole_le_iff.mp hLe
  rw [ho, ho', Quantity.whole_le_iff]
  have hInner : nestedCost n scan.cardinality cost plan.cardinality ≤
      nestedCost n scan.cardinality cost' other.cardinality := by
    refine nestedCost_le_inner hLe ?_ hScanCard
    rcases hUndercuts.cardinality with hCard | ⟨-, hCard⟩
    · exact Int.le_of_eq hCard
    · exact hCard
  have hOuter : nestedCost cost plan.cardinality n scan.cardinality ≤
      nestedCost cost' other.cardinality n scan.cardinality := by
    rcases hUndercuts.cardinality with hCard | ⟨hNatural, hCard⟩
    · rw [hCard]
      exact nestedCost_le_of_outer hLe
    · exact nestedCost_le_outer hLe hCard (hNatural _ _ hScan n hn) hScanCard
  omega

end Setting

end JoinPlanner
