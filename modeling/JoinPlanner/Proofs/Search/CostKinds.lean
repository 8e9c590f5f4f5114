import JoinPlanner.Proofs.NotNegative
import JoinPlanner.Proofs.Search.Cells
import JoinPlanner.Proofs.Search.WholeCosts

/-!
# JoinPlanner — equal costs

Costs that compare as equal need not be the same: an integer may equal a double, and there
are two zeros. For the candidates of one set both is ruled out. A cost is an integer if the
set has no subplan and all of its scans cost integers, whatever the order of its joins, and
no cost is the negative zero, because the last term of each is none.

* `noNegativeZero_joinCost`, `isWhole_joinCost` — the cost of one join.
* `Setting.wholeJoin`        — the scans of a join cost integers.
* `isWhole_of_candidate`     — the kind of a cost is that of the joins.
* `Searched.isWhole`         — so are the costs of all plans of a table.
* `Searched.eq_cost_of_tie`  — candidates of which none is cheaper cost the same.
-/

namespace JoinPlanner

open Outcome

-- ---------------------------------------------------------------------------
-- Rounding
-- ---------------------------------------------------------------------------

namespace Binary64

theorem ofQuotient_ne_zero {negative : Bool} {num : Nat} (h : 0 < num) (sign : Bool) :
    ofQuotient negative num 1 ≠ finite sign 0 := by
  rw [ofQuotient]
  split
  · intro hZero
    have hNone := (finite.inj hZero).2
    have hPos := nearestUnits_pos h
    omega
  · intro hZero
    cases hZero

/-- A sum is the negative zero only if both terms are. -/
theorem add_ne_negativeZero {x y : Binary64} (hy : y ≠ finite true 0) :
    add x y ≠ finite true 0 := by
  match x, y with
  | nan, _ => simp [add]
  | infinite s, nan => simp [add]
  | finite s m, nan => simp [add]
  | infinite s, infinite t => simp only [add]; split <;> simp
  | infinite s, finite t n => simp [add]
  | finite s m, infinite t => simp [add]
  | finite s m, finite t n =>
    simp only [add, ofUnits]
    split
    · rename_i hSum
      intro hZero
      obtain ⟨rfl, rfl⟩ : s = true ∧ t = true := by simpa using (finite.inj hZero).1
      simp only [signedUnits, if_true] at hSum
      exact hy (congrArg (finite true) (by omega))
    · rename_i hSum
      exact ofQuotient_ne_zero (Int.natAbs_pos.mpr hSum) true

theorem ofInt_ne_negativeZero {n : Int} {x : Binary64} (h : ofInt n = .ok x) :
    x ≠ finite true 0 := by
  obtain rfl := finiteOr_eq_ok h
  by_cases hn : n < 0
  · have hPos : 0 < n.natAbs * unitsPerOne :=
      Nat.mul_pos (by omega) unitsPerOne_pos
    exact ofQuotient_ne_zero hPos true
  · rw [decide_eq_false hn, ofQuotient]
    split <;> simp

end Binary64

-- ---------------------------------------------------------------------------
-- One join
-- ---------------------------------------------------------------------------

namespace Quantity

/-- Two integers combine to an integer; anything else makes a double. -/
theorem isWhole_combine {whole : Int → Int → Int} {real : Binary64 → Binary64 → Binary64}
    {x y z : Quantity} (h : Number.combine whole real x y = .ok z) :
    z.isWhole = (x.isWhole && y.isWhole) := by
  cases x <;> cases y <;> simp only [Number.combine, bind_eq_ok, pure_eq_ok, Except.ok.injEq] at h
  · subst h
    rfl
  · obtain ⟨_, -, rfl⟩ := h
    rfl
  · obtain ⟨_, -, rfl⟩ := h
    rfl
  · subst h
    rfl

theorem noNegativeZero_add {x y z : Quantity} (hy : y.NoNegativeZero)
    (h : Number.add x y = .ok z) : z.NoNegativeZero := by
  have hReal : ∀ a b : Binary64, b ≠ .finite true 0 →
      NoNegativeZero (.real (Arithmetic.add a b)) := fun a b hb hZero =>
    Binary64.add_ne_negativeZero hb (Number.real.inj hZero)
  cases x <;> cases y <;>
    simp only [Number.add, Number.combine, bind_eq_ok, pure_eq_ok, Except.ok.injEq] at h
  · subst h
    simp [NoNegativeZero]
  · obtain ⟨_, -, rfl⟩ := h
    exact hReal _ _ fun hZero => hy (congrArg Number.real hZero)
  · obtain ⟨_, hInt, rfl⟩ := h
    exact hReal _ _ (Binary64.ofInt_ne_negativeZero hInt)
  · subst h
    exact hReal _ _ fun hZero => hy (congrArg Number.real hZero)

end Quantity

section Joins

variable {p : Predicate} {outerCard innerCard : Cardinality} {outerCost innerCost cost : Cost}
  {l r : JoinInput} {o : Oriented}

/-- The cost of a join is an integer if those of its inputs are. -/
theorem isWhole_joinCost (h : joinCost p outerCard innerCard outerCost innerCost = .ok cost) :
    cost.isWhole = (outerCost.isWhole && innerCost.isWhole) := by
  rw [joinCost] at h
  split at h
  · obtain ⟨sum, hSum, h⟩ := bind_eq_ok.mp h
    rw [Quantity.isWhole_combine h, Quantity.isWhole_combine hSum]
    rfl
  · obtain ⟨reads, hReads, h⟩ := bind_eq_ok.mp h
    obtain ⟨io, hIo, h⟩ := bind_eq_ok.mp h
    rw [Quantity.isWhole_combine h, Quantity.isWhole_combine hIo, Quantity.isWhole_combine hReads]
    cases outerCost.isWhole <;> cases innerCost.isWhole <;> rfl

/-- It is not the negative zero, because the pairs of tuples or the cost of a subquery are not. -/
theorem noNegativeZero_joinCost
    (h : joinCost p outerCard innerCard outerCost innerCost = .ok cost)
    (hSubplan : p.isSubplan = true → innerCost.NoNegativeZero) : cost.NoNegativeZero := by
  rw [joinCost] at h
  split at h
  · obtain ⟨sum, -, h⟩ := bind_eq_ok.mp h
    exact Quantity.noNegativeZero_add (hSubplan ‹_›) h
  · obtain ⟨reads, -, h⟩ := bind_eq_ok.mp h
    obtain ⟨io, -, h⟩ := bind_eq_ok.mp h
    exact Quantity.noNegativeZero_add (by simp [Quantity.NoNegativeZero]) h

theorem isWhole_orient (h : orient p l r = .ok o) :
    o.cost.isWhole = (l.cost.isWhole && r.cost.isWhole) := by
  rcases orient_cases h with ⟨-, hGiven⟩ | ⟨-, given, exchanged, hGiven, hExchanged, rfl⟩
  · obtain ⟨cost, hCost, rfl⟩ := asGiven_eq_ok_iff.mp hGiven
    exact isWhole_joinCost hCost
  · obtain ⟨cost, hCost, rfl⟩ := asGiven_eq_ok_iff.mp hGiven
    obtain ⟨cost', hCost', rfl⟩ := asGiven_eq_ok_iff.mp hExchanged
    split
    · rw [isWhole_joinCost hCost', Bool.and_comm]
    · exact isWhole_joinCost hCost

theorem noNegativeZero_orient (h : orient p l r = .ok o)
    (hSubplan : p.isSubplan = true → r.cost.NoNegativeZero) : o.cost.NoNegativeZero := by
  rcases orient_cases h with ⟨-, hGiven⟩ | ⟨hKind, given, exchanged, hGiven, hExchanged, rfl⟩
  · obtain ⟨cost, hCost, rfl⟩ := asGiven_eq_ok_iff.mp hGiven
    exact noNegativeZero_joinCost hCost hSubplan
  · obtain ⟨cost, hCost, rfl⟩ := asGiven_eq_ok_iff.mp hGiven
    obtain ⟨cost', hCost', rfl⟩ := asGiven_eq_ok_iff.mp hExchanged
    split
    · refine noNegativeZero_joinCost hCost' fun hFlipped => ?_
      rw [p.isSubplan_flipped, hKind] at hFlipped
      cases hFlipped
    · exact noNegativeZero_joinCost hCost hSubplan

end Joins

-- ---------------------------------------------------------------------------
-- The joins of a set
-- ---------------------------------------------------------------------------

namespace Setting

variable {s : Setting} {previous : Option Plan} {p : Predicate} {o : Oriented}

/-- Whether the scan of a table costs an integer. -/
def wholeTable (s : Setting) (table : Option String) : Bool :=
  match s.scanOf table with
  | .ok (cost, _) => cost.isWhole
  | .error _ => false

/-- Whether the join reads two tables whose scans cost integers. -/
def wholeJoin (s : Setting) (p : Predicate) : Bool :=
  !p.isSubplan && s.wholeTable p.left.table && s.wholeTable p.right.table

theorem isWhole_scanInput {side : Operand} {input : JoinInput}
    (h : s.scanInput side = .ok input) : input.cost.isWhole = s.wholeTable side.table := by
  obtain ⟨⟨cost, card⟩, hScan, h⟩ := bind_eq_ok.mp h
  obtain ⟨key, -, h⟩ := bind_eq_ok.mp h
  cases h
  rw [wholeTable, hScan]

theorem isWhole_innerInput {input : JoinInput} (h : s.innerInput p = .ok input) :
    input.cost.isWhole = (!p.isSubplan && s.wholeTable p.right.table) := by
  rw [innerInput] at h
  cases hKind : p.isSubplan with
  | true =>
    rw [hKind, if_pos rfl] at h
    cases h
    rfl
  | false =>
    rw [hKind, if_neg (by simp)] at h
    rw [isWhole_scanInput h, Bool.not_false, Bool.true_and]

/-- A table of joins whose scans all cost integers is one of these. -/
theorem wholeTable_of_joinsTable {order rest : List Predicate} (hExecutes : Executes order rest)
    (hWhole : rest.all s.wholeJoin = true) {table : Option String}
    (h : joinsTable order table = true) : s.wholeTable table = true := by
  obtain ⟨q, hq, a, rfl, hMem⟩ := joinsTable_iff.mp h
  obtain ⟨r, hr, hSame⟩ := exists_sameJoin_of_mem hExecutes hq
  have hJoin := List.all_eq_true.mp hWhole r hr
  rw [hSame.mem_tables_iff] at hMem
  obtain ⟨kind, left, operator, right⟩ := r
  simp only [wholeJoin, Bool.and_eq_true] at hJoin
  cases kind with
  | subplan => cases hJoin.1.1
  | table =>
    have hSide : some a = left.table ∨ some a = right.table := by
      simpa using (List.mem_filter.mp hMem).1
    rcases hSide with hSide | hSide
    · rw [hSide]
      exact hJoin.1.2
    · rw [hSide]
      exact hJoin.2

/-- The cost of a join after some others is an integer if all of their scans cost integers. -/
theorem isWhole_of_candidate {rest : List Predicate} (h : s.Candidate previous p o)
    (hPrevious : ∀ plan, previous = some plan →
      plan.cost.isWhole = rest.all s.wholeJoin ∧ Executes plan.order rest)
    (hNone : previous = none → rest = []) :
    o.cost.isWhole = (s.wholeJoin p && rest.all s.wholeJoin) := by
  obtain ⟨l, r, hInputs, hOrient⟩ := h
  rw [isWhole_orient hOrient]
  cases hInputs with
  | first left right =>
    rw [isWhole_scanInput left, isWhole_innerInput right, hNone rfl, wholeJoin]
    cases p.isSubplan <;> simp
  | @onLeft plan _ _ _ shared left right =>
    obtain ⟨hPlan, hExecutes⟩ := hPrevious plan rfl
    rw [(planInput_cost left).1, hPlan, isWhole_innerInput right, wholeJoin]
    cases hRest : rest.all s.wholeJoin with
    | false => simp
    | true =>
      rw [wholeTable_of_joinsTable hExecutes hRest shared]
      simp
  | @onRight plan _ _ _ fresh kind shared right left =>
    obtain ⟨hPlan, hExecutes⟩ := hPrevious plan rfl
    rw [(planInput_cost right).1, hPlan, isWhole_scanInput left, wholeJoin, kind]
    cases hRest : rest.all s.wholeJoin with
    | false => simp
    | true =>
      rw [wholeTable_of_joinsTable hExecutes hRest shared]
      simp

theorem noNegativeZero_of_candidate (h : s.Candidate previous p o) : o.cost.NoNegativeZero := by
  obtain ⟨l, r, hInputs, hOrient⟩ := h
  refine noNegativeZero_orient hOrient fun hKind => ?_
  have hInner : s.innerInput p = .ok r → r.cost.NoNegativeZero := by
    intro hRight
    rw [innerInput, if_pos hKind] at hRight
    cases hRight
    simp [Quantity.NoNegativeZero, Binary64.zero]
  cases hInputs with
  | first _ right => exact hInner right
  | onLeft _ _ right => exact hInner right
  | onRight _ kind _ _ _ => cases hKind.symm.trans kind

end Setting

-- ---------------------------------------------------------------------------
-- The plans of a table
-- ---------------------------------------------------------------------------

namespace Searched

open Setting

variable {s : Setting} {visit : Visit} {joins members : List Predicate} {size : Nat}
  {plans : PlanTable} {plan : Plan} {p q : Predicate} {previous previous' : Option Plan}
  {o o' : Oriented}

/-- The costs of the last joins of a set are of one kind. -/
theorem isWhole_of_lastJoin (h : Searched s visit joins size plans) (hNodup : joins.Nodup)
    (hVisit : ∀ l, (visit l).Perm l) (hWithin : Within joins size members)
    (hSmaller : ∀ rest kept, Within joins size rest → rest.length < members.length →
      plans.get? ⟨rest⟩ = some kept → kept.cost.isWhole = rest.all s.wholeJoin)
    (hp : p ∈ members) (hLast : s.LastJoin plans.get? ⟨members⟩ p previous o) :
    o.cost.isWhole = members.all s.wholeJoin := by
  have hRest : o.cost.isWhole = (s.wholeJoin p && (members.erase p).all s.wholeJoin) := by
    refine isWhole_of_candidate hLast.next (fun plan hPlan => ?_) fun hNone => ?_
    · rcases previousOf?_cases (hWithin.nodup hNodup) hLast.rest with
        ⟨-, hEmpty⟩ | ⟨kept, hNe, hKept, hSome⟩
      · cases hPlan.symm.trans hEmpty
      · obtain rfl := Option.some.inj (hPlan.symm.trans hSome)
        have hErase := (hWithin.mono (Nat.le_succ size)).erase hp hNe
        have hShort := List.length_erase_of_mem hp
        have hPos := List.length_pos_of_mem hp
        exact ⟨hSmaller _ _ hErase (by omega) hKept,
          (h.planFor hNodup hVisit hErase hKept).executes⟩
    · rcases previousOf?_cases (hWithin.nodup hNodup) hLast.rest with
        ⟨hEmpty, -⟩ | ⟨kept, -, -, hSome⟩
      · exact hEmpty
      · cases hNone.symm.trans hSome
  rw [hRest, ← List.all_cons]
  exact ((List.perm_cons_erase hp).all_eq).symm

/-- The cost of a plan is an integer if all scans of its set cost integers. -/
theorem isWhole (h : Searched s visit joins size plans) (hNodup : joins.Nodup)
    (hVisit : ∀ l, (visit l).Perm l) (hWithin : Within joins size members)
    (hPlan : plans.get? ⟨members⟩ = some plan) :
    plan.cost.isWhole = members.all s.wholeJoin := by
  induction hLength : members.length using Nat.strongRecOn generalizing members plan with
  | ind length ih =>
    obtain ⟨p, hp, previous, o, hLast, hComplete⟩ := (h.bestOf hWithin).attained plan hPlan
    obtain ⟨card, -, rfl⟩ := complete_eq_ok_iff.mp hComplete
    refine h.isWhole_of_lastJoin hNodup hVisit hWithin (fun rest kept hRest hShort hKept => ?_)
      ((hVisit members).mem_iff.mp hp) hLast
    exact ih rest.length (hLength ▸ hShort) hRest hKept rfl

/-- Of two last joins of a set one is cheaper, or they cost the same. -/
theorem eq_cost_of_tie (h : Searched s visit joins size plans) (hNodup : joins.Nodup)
    (hVisit : ∀ l, (visit l).Perm l) (hWithin : Within joins size members)
    (hp : p ∈ members) (hq : q ∈ members)
    (hLast : s.LastJoin plans.get? ⟨members⟩ p previous o)
    (hLast' : s.LastJoin plans.get? ⟨members⟩ q previous' o')
    (hDefined : o.cost.Defined) (hDefined' : o'.cost.Defined)
    (hNot : o.cost.lt o'.cost = false) (hNot' : o'.cost.lt o.cost = false) : o.cost = o'.cost := by
  have hKind : ∀ {r : Predicate} {before : Option Plan} {last : Oriented}, r ∈ members →
      s.LastJoin plans.get? ⟨members⟩ r before last →
        last.cost.isWhole = members.all s.wholeJoin := fun hr hLast =>
    h.isWhole_of_lastJoin hNodup hVisit hWithin
      (fun rest kept hRest _ hKept => h.isWhole hNodup hVisit hRest hKept) hr hLast
  exact Quantity.eq_of_not_lt hDefined hDefined' ((hKind hp hLast).trans (hKind hq hLast').symm)
    (noNegativeZero_of_candidate hLast.next) (noNegativeZero_of_candidate hLast'.next) hNot hNot'

end Searched

end JoinPlanner
