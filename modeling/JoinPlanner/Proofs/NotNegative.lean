import JoinPlanner.Proofs.Outcome
import JoinPlanner.Proofs.Quantity
import JoinPlanner.Statistics.Table

/-!
# JoinPlanner — numbers that are not negative

Products and sums of numbers that are not negative are not negative either, rounding
included. So a scan whose filter has such a selectivity produces a natural number of
tuples.

* `Binary64.NotNegative`, `Quantity.NotNegative` — the property; it holds of the undefined
  double, which has no integer part.
* `notNegative_of_le`    — everything that is at least zero has it.
* `cardinality_nonneg`   — the tuples that pass a filter.
-/

namespace JoinPlanner

open Outcome

namespace Binary64

/-- The double is not below zero; a negative sign is that of a zero. -/
inductive NotNegative : Binary64 → Prop
  | nan : NotNegative nan
  | infinite : NotNegative (infinite false)
  | positive (units : Nat) : NotNegative (finite false units)
  | negativeZero : NotNegative (finite true 0)

theorem notNegative_iff_signedUnits {negative : Bool} {units : Nat} :
    (finite negative units).NotNegative ↔ 0 ≤ signedUnits negative units := by
  cases negative with
  | false => exact iff_of_true (.positive units) (Int.natCast_nonneg units)
  | true =>
    constructor
    · intro h
      cases h
      exact Int.le_refl 0
    · intro h
      have hUnits : 0 ≤ -(units : Int) := h
      obtain rfl : units = 0 := by omega
      exact .negativeZero

theorem notNegative_ofQuotient {negative : Bool} {num : Nat} (den : Nat)
    (h : negative = true → num = 0) : (ofQuotient negative num den).NotNegative := by
  rw [ofQuotient]
  cases negative with
  | false =>
    by_cases hFits : nearestUnits num den < overflowUnits
    · rw [if_pos hFits]
      exact .positive _
    · rw [if_neg hFits]
      exact .infinite
  | true =>
    rw [h rfl, nearestUnits_zero, if_pos overflowUnits_pos]
    exact .negativeZero

theorem notNegative_mul {x y : Binary64} (hx : x.NotNegative) (hy : y.NotNegative) :
    (mul x y).NotNegative := by
  -- zero times infinity is undefined; otherwise only zeros have a negative sign
  cases hx with
  | nan => exact .nan
  | infinite =>
    cases hy with
    | nan => exact .nan
    | infinite => exact .infinite
    | positive n =>
      rw [mul]
      split
      · exact .nan
      · exact .infinite
    | negativeZero => exact .nan
  | positive m =>
    cases hy with
    | nan => exact .nan
    | infinite =>
      rw [mul]
      split
      · exact .nan
      · exact .infinite
    | positive n =>
      rw [mul]
      exact notNegative_ofQuotient _ fun hSign => by cases hSign
    | negativeZero =>
      rw [mul]
      exact notNegative_ofQuotient _ fun _ => Nat.mul_zero m
  | negativeZero =>
    cases hy with
    | nan => exact .nan
    | infinite => exact .nan
    | positive n =>
      rw [mul]
      exact notNegative_ofQuotient _ fun _ => Nat.zero_mul n
    | negativeZero =>
      rw [mul]
      exact notNegative_ofQuotient _ fun _ => Nat.zero_mul 0

theorem notNegative_ofUnits {zeroSign : Bool} {units : Int} (h : 0 ≤ units) :
    (ofUnits zeroSign units).NotNegative := by
  rw [ofUnits]
  split
  · cases zeroSign with
    | false => exact .positive 0
    | true => exact .negativeZero
  · refine notNegative_ofQuotient _ fun hSign => ?_
    have hNeg := of_decide_eq_true hSign
    omega

theorem notNegative_add {x y : Binary64} (hx : x.NotNegative) (hy : y.NotNegative) :
    (add x y).NotNegative := by
  match x, y with
  | nan, _ => exact .nan
  | infinite _, nan => exact .nan
  | finite _ _, nan => exact .nan
  | infinite s, infinite t =>
    cases hx
    cases hy
    exact .infinite
  | infinite s, finite t n => exact hx
  | finite s m, infinite t => exact hy
  | finite s m, finite t n =>
    rw [add]
    have hm := notNegative_iff_signedUnits.mp hx
    have hn := notNegative_iff_signedUnits.mp hy
    exact notNegative_ofUnits (by omega)

theorem finiteOr_eq_ok {failure : NumberError} {x y : Binary64} (h : finiteOr failure x = .ok y) :
    x = y := by
  cases x with
  | infinite s => cases h
  | nan =>
    cases h
    rfl
  | finite s m =>
    cases h
    rfl

theorem notNegative_ofInt {n : Int} {x : Binary64} (hn : 0 ≤ n) (h : ofInt n = .ok x) :
    x.NotNegative := by
  rw [← finiteOr_eq_ok h]
  refine notNegative_ofQuotient _ fun hSign => ?_
  have hNeg := of_decide_eq_true hSign
  omega

theorem truncate_nonneg {x : Binary64} {n : Int} (hx : x.NotNegative) (h : truncate x = .ok n) :
    0 ≤ n := by
  cases x with
  | nan => cases h
  | infinite s => cases h
  | finite s m =>
    rw [truncate, Except.ok.injEq] at h
    rw [← h]
    exact Int.tdiv_nonneg (notNegative_iff_signedUnits.mp hx) (Int.natCast_nonneg _)

theorem ceil_nonneg {x : Binary64} {n : Int} (hx : x.NotNegative) (h : ceil x = .ok n) : 0 ≤ n := by
  -- the ceiling is that of the exchanged sign, exchanged
  have hFloor : ∀ units : Int, units ≤ 0 → Int.fdiv units unitsPerOne ≤ 0 := by
    intro units hUnits
    rcases Int.lt_or_eq_of_le hUnits with hNeg | rfl
    · exact Int.le_of_lt (Int.fdiv_neg_of_neg_of_pos hNeg Quantity.unitsPerOne_pos)
    · exact Int.le_of_eq (Int.zero_fdiv _)
  cases hx with
  | nan => cases h
  | infinite => cases h
  | positive m =>
    rw [ceil, neg, floor, Except.map, Except.ok.injEq] at h
    have hUnits : signedUnits (!false) m ≤ 0 := by
      show -(m : Int) ≤ 0
      omega
    have hLe := hFloor _ hUnits
    omega
  | negativeZero =>
    rw [ceil, neg, floor, Except.map, Except.ok.injEq] at h
    have hLe := hFloor (signedUnits (!true) 0) (Int.le_refl 0)
    omega

theorem notNegative_quotient {m n : Int} {x : Binary64} (hm : 0 ≤ m) (hn : 0 ≤ n)
    (h : quotient m n = .ok x) : x.NotNegative := by
  rw [← finiteOr_eq_ok h]
  refine notNegative_ofQuotient _ fun hSign => ?_
  have hSame : (decide (m < 0) ^^ decide (n < 0)) = false := by
    rw [decide_eq_false (by omega), decide_eq_false (by omega)]
    rfl
  cases hSame.symm.trans hSign

end Binary64

namespace Quantity

/-- The number is not below zero. -/
def NotNegative : Quantity → Prop
  | .whole n => 0 ≤ n
  | .real x => x.NotNegative

theorem notNegative_real {x : Binary64} : NotNegative (.real x) ↔ x.NotNegative := Iff.rfl

/-- A number that is at least zero is not negative. -/
theorem notNegative_of_le {q : Quantity} (h : Number.le (.whole 0) q = true) : q.NotNegative := by
  cases q with
  | whole n => exact whole_le_iff.mp h
  | real x =>
    rw [notNegative_real]
    cases x with
    | nan => exact .nan
    | infinite negative =>
      cases negative with
      | false => exact .infinite
      | true => cases h
    | finite negative m =>
      have hFinite : Finite (.real (.finite negative m)) := trivial
      have hUnits := (le_iff_units (finite_whole 0) hFinite).mp h
      rw [units, Int.zero_mul] at hUnits
      exact Binary64.notNegative_iff_signedUnits.mpr hUnits

/-- Numbers that are not negative combine to such a number if both arithmetics do so. -/
theorem notNegative_combine {whole : Int → Int → Int} {real : Binary64 → Binary64 → Binary64}
    (hWhole : ∀ m n, 0 ≤ m → 0 ≤ n → 0 ≤ whole m n)
    (hReal : ∀ x y, x.NotNegative → y.NotNegative → (real x y).NotNegative)
    {a b c : Quantity} (ha : a.NotNegative) (hb : b.NotNegative)
    (h : Number.combine whole real a b = .ok c) : c.NotNegative := by
  cases a with
  | whole m =>
    cases b with
    | whole n =>
      rw [Number.combine, Except.ok.injEq] at h
      subst h
      exact hWhole m n ha hb
    | real y =>
      rw [Number.combine, bind_eq_ok] at h
      obtain ⟨x, hx, h⟩ := h
      rw [pure_eq_ok] at h
      subst h
      exact hReal x y (Binary64.notNegative_ofInt ha hx) hb
  | real x =>
    cases b with
    | whole n =>
      rw [Number.combine, bind_eq_ok] at h
      obtain ⟨y, hy, h⟩ := h
      rw [pure_eq_ok] at h
      subst h
      exact hReal x y ha (Binary64.notNegative_ofInt hb hy)
    | real y =>
      rw [Number.combine, Except.ok.injEq] at h
      subst h
      exact hReal x y ha hb

theorem notNegative_mul {a b c : Quantity} (ha : a.NotNegative) (hb : b.NotNegative)
    (h : Number.mul a b = .ok c) : c.NotNegative :=
  notNegative_combine (fun _ _ => Int.mul_nonneg) (fun _ _ => Binary64.notNegative_mul) ha hb h

theorem notNegative_add {a b c : Quantity} (ha : a.NotNegative) (hb : b.NotNegative)
    (h : Number.add a b = .ok c) : c.NotNegative :=
  notNegative_combine (fun _ _ => Int.add_nonneg) (fun _ _ => Binary64.notNegative_add) ha hb h

theorem truncate_nonneg {a : Quantity} {n : Int} (ha : a.NotNegative)
    (h : Number.truncate a = .ok n) : 0 ≤ n := by
  cases a with
  | whole m =>
    cases h
    exact ha
  | real x => exact Binary64.truncate_nonneg ha h

theorem notNegative_half : NotNegative TableStats.half := by
  rw [TableStats.half, notNegative_real]
  exact Binary64.notNegative_ofQuotient 2 fun h => by cases h

end Quantity

/-- A filter whose selectivity is not negative passes a natural number of tuples. -/
theorem TableStats.cardinality_nonneg {stats : TableStats} {selectivity : Quantity}
    {card : Cardinality} (hSelectivity : selectivity.NotNegative)
    (h : stats.cardinality selectivity = .ok card) : 0 ≤ card := by
  simp only [cardinality, bind_eq_ok] at h
  obtain ⟨passing, hPassing, rounded, hRounded, hTruncate⟩ := h
  have hTuples : Quantity.NotNegative (.whole stats.tuples) := Int.natCast_nonneg stats.tuples
  exact Quantity.truncate_nonneg (Quantity.notNegative_add
    (Quantity.notNegative_mul hTuples hSelectivity hPassing) Quantity.notNegative_half hRounded)
    hTruncate

end JoinPlanner
