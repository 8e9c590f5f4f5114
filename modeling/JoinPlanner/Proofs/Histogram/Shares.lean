import JoinPlanner.Histogram.Basic
import JoinPlanner.Proofs.Number.WholeDoubles

/-!
# JoinPlanner — shares of buckets

A share of a bucket is a difference of doubles that is cut off at zero and one. If both of them
are integers, only their order matters: the share is one, or it is zero.

* `Smaller`, `smaller_of_denotes` — the order of doubles, and that of small integers.
* `clamp_eq_ite` — where a fraction is cut off.
* `clamp_sub`    — the share of a bucket is all of it or nothing.
-/

namespace JoinPlanner

open Binary64

namespace Histogram

-- ---------------------------------------------------------------------------
-- Order
-- ---------------------------------------------------------------------------

/-- One double is smaller than another one. -/
def Smaller (x y : Binary64) : Prop := Binary64.compare? x y = some .lt

instance (x y : Binary64) : Decidable (Smaller x y) := inferInstanceAs (Decidable (_ = _))

theorem smaller_finite {s t : Bool} {m n : Nat} :
    Smaller (.finite s m) (.finite t n) ↔ signedUnits s m < signedUnits t n := by
  show some (compare _ _) = some .lt ↔ _
  rw [Option.some.injEq, compare_lt_iff_lt]

theorem smaller_infinite {s t : Bool} {m : Nat} :
    Smaller (.finite s m) (.infinite t) ↔ t = false := by
  cases t with
  | false => exact iff_of_true rfl rfl
  | true => exact iff_of_false (fun h => by cases h) Bool.noConfusion

theorem infinite_smaller {s t : Bool} {m : Nat} :
    Smaller (.infinite t) (.finite s m) ↔ t = true := by
  cases t with
  | false => exact iff_of_false (fun h => by cases h) Bool.noConfusion
  | true => exact iff_of_true rfl rfl

/-- Small integers are in the order of their doubles. -/
theorem smaller_of_denotes {x y : Binary64} {m n : Int} (hx : Denotes x m) (hy : Denotes y n) :
    Smaller x y ↔ m < n := by
  obtain ⟨s, a, rfl, ha⟩ := hx
  obtain ⟨t, b, rfl, hb⟩ := hy
  rw [smaller_finite, ha, hb]
  exact mul_lt_mul_iff_of_pos_right (Int.natCast_pos.mpr unitsPerOne_pos)

-- ---------------------------------------------------------------------------
-- Cutting off
-- ---------------------------------------------------------------------------

theorem clamp_eq_ite (x : Binary64) : clamp x =
    if Smaller one (if Smaller x zero then zero else x) then one
      else if Smaller x zero then zero else x := by
  have hSwap : Binary64.compare? zero x = some .gt ↔ Smaller x zero := by
    unfold Smaller
    cases x with
    | nan => exact iff_of_false (fun h => by cases h) fun h => by cases h
    | infinite negative => cases negative <;> decide
    | finite negative units =>
      show some (compare (signedUnits false 0) (signedUnits negative units)) = some .gt ↔
        some (compare (signedUnits negative units) (signedUnits false 0)) = some .lt
      rw [Option.some.injEq, Option.some.injEq, compare_gt_iff_gt, compare_lt_iff_lt]
  simp only [← hSwap]
  unfold clamp
  simp only [beq_iff_eq]
  rfl

theorem not_smaller_one_zero (negative : Bool) : ¬ Smaller one (.finite negative 0) := by
  rw [one, smaller_finite, signedUnits_false]
  cases negative <;> exact Int.not_lt.mpr (Int.natCast_nonneg _)

theorem clamp_of_smaller {x : Binary64} (h : Smaller x zero) : clamp x = zero := by
  have hNot : ¬ Smaller one zero := not_smaller_one_zero false
  rw [clamp_eq_ite, if_pos h, if_neg hNot]

theorem clamp_zero (negative : Bool) :
    clamp (.finite negative 0 : Binary64) = .finite negative 0 := by
  have hNot : ¬ Smaller (.finite negative 0) zero := by
    rw [zero, smaller_finite]
    cases negative <;> decide
  rw [clamp_eq_ite, if_neg hNot, if_neg (not_smaller_one_zero negative)]

/-- What is at least one is cut off there. -/
theorem clamp_of_one_le {units : Nat} (h : unitsPerOne ≤ units) :
    clamp (.finite false units : Binary64) = one := by
  have hNot : ¬ Smaller (.finite false units) zero := by
    rw [zero, smaller_finite, signedUnits_false, signedUnits_false]
    omega
  rw [clamp_eq_ite, if_neg hNot]
  split
  · rfl
  · rename_i hOne
    rw [one, smaller_finite, signedUnits_false, signedUnits_false] at hOne
    rw [one, Nat.le_antisymm (by omega) h]

theorem clamp_infinite (negative : Bool) :
    clamp (.infinite negative : Binary64) = if negative then zero else one := by
  cases negative with
  | true => exact clamp_of_smaller (infinite_smaller.mpr rfl)
  | false =>
    have hNot : ¬ Smaller (.infinite false) zero := mt infinite_smaller.mp Bool.false_ne_true
    have hOne : Smaller one (.infinite false) := smaller_infinite.mpr rfl
    rw [clamp_eq_ite, if_neg hNot, if_pos hOne, if_neg Bool.false_ne_true]

/-- A whole difference is cut off at one if it is positive, and at zero otherwise. -/
theorem clamp_ofUnits (zeroSign : Bool) {d : Int} (hWhole : (unitsPerOne : Int) ∣ d) :
    (0 < d → clamp (div (ofUnits zeroSign d) one) = one) ∧
      (d ≤ 0 → ∃ s, clamp (div (ofUnits zeroSign d) one) = .finite s 0) := by
  constructor
  · intro hPos
    have hLe : unitsPerOne ≤ d.natAbs := by
      have := Int.le_of_dvd hPos hWhole
      omega
    rw [ofUnits, if_neg (by omega), div_one_ofQuotient, decide_eq_false (by omega), ofQuotient]
    split
    · exact clamp_of_one_le (le_nearestUnits_of_exact Nat.one_pos exact_unitsPerOne (by omega))
    · exact clamp_infinite false
  · intro hNeg
    rcases eq_or_lt_of_le hNeg with rfl | hNeg
    · have hZero := ofQuotient_zero zeroSign 1
      rw [ofUnits, if_pos rfl, ← hZero, div_one_ofQuotient, hZero]
      exact ⟨zeroSign, clamp_zero zeroSign⟩
    · refine ⟨false, ?_⟩
      rw [ofUnits, if_neg (by omega), div_one_ofQuotient, decide_eq_true hNeg, ofQuotient]
      split
      · have hPos : 0 < nearestUnits d.natAbs 1 := nearestUnits_pos (by omega)
        refine clamp_of_smaller ?_
        rw [zero, smaller_finite, signedUnits_true, signedUnits_false]
        omega
      · exact clamp_infinite true

/-- The difference of two whole doubles, not both infinite, cut off at zero and one. -/
theorem clamp_sub {x y : Binary64} (hx : Whole x) (hy : Whole y)
    (hFinite : (∃ s m, x = .finite s m) ∨ ∃ s m, y = .finite s m) :
    (Smaller y x → clamp (div (Binary64.sub x y) one) = one) ∧
      (¬ Smaller y x → ∃ s, clamp (div (Binary64.sub x y) one) = .finite s 0) := by
  cases hx with
  | infinite s =>
    cases hy with
    | infinite t => rcases hFinite with ⟨_, _, h⟩ | ⟨_, _, h⟩ <;> cases h
    | @finite t n hn =>
      have hPart : div (Binary64.sub (.infinite s) (.finite t n)) one = .infinite s := by
        cases s <;> rfl
      rw [hPart, clamp_infinite, smaller_infinite]
      cases s <;> simp [zero]
  | @finite s m hm =>
    cases hy with
    | infinite t =>
      have hPart : div (Binary64.sub (.finite s m) (.infinite t)) one = .infinite !t := by
        cases t <;> rfl
      rw [hPart, clamp_infinite, infinite_smaller]
      cases t <;> simp [zero]
    | @finite t n hn =>
      have hSigned : signedUnits (!t) n = -signedUnits t n := by
        cases t with
        | false => rfl
        | true => rw [signedUnits_true, Int.neg_neg]; rfl
      have hWhole : (unitsPerOne : Int) ∣ signedUnits s m - signedUnits t n :=
        Int.dvd_sub (dvd_signedUnits hm) (dvd_signedUnits hn)
      obtain ⟨hOne, hZero⟩ := clamp_ofUnits (s && !t) hWhole
      have hSub : Binary64.sub (.finite s m) (.finite t n) =
          ofUnits (s && !t) (signedUnits s m - signedUnits t n) := by
        show Binary64.add (.finite s m) (.finite (!t) n) = _
        rw [add_finite, hSigned, Int.sub_eq_add_neg]
      rw [hSub, smaller_finite]
      exact ⟨fun h => hOne (by omega), fun h => hZero (by omega)⟩

end Histogram

end JoinPlanner
