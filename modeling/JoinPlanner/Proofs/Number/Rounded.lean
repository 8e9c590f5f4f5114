import JoinPlanner.Number.Arithmetic
import JoinPlanner.Proofs.Number.Rounding
import Mathlib.Data.Rat.Floor
import Mathlib.Order.Monotone.Basic

/-!
# JoinPlanner — rationals under a rounding

An estimate does not hang on the last bits of doubles. Here it is read in rationals: every
operation gives its exact result, which is then rounded. Of the rounding no more is known than
that it keeps the order, and the integers up to `2 ^ 53`.

* `Rounding`         — such a rounding, with its two laws.
* `Rounding.exact`   — no rounding at all.
* `Rounding.nearest` — the nearest double, if there were doubles of any size.
* `Rounded`, `Unrounded` — rationals as an approximating arithmetic.
* `Rounding.nonneg`, `Rounding.le_nat`, `Rounding.nat_le` — a rounding does not cross an integer.
-/

namespace JoinPlanner

-- ---------------------------------------------------------------------------
-- Roundings
-- ---------------------------------------------------------------------------

/-- The integers up to this magnitude are not rounded. -/
def wholeLimit : Nat := 2 ^ 53

/-- A rounding of rationals that keeps their order and moves no integer that is not too large. -/
structure Rounding where
  round : Rat → Rat
  mono : Monotone round
  whole : ∀ n : Int, n.natAbs ≤ wholeLimit → round n = n

namespace Rounding

instance : CoeFun Rounding fun _ => Rat → Rat := ⟨round⟩

/-- Nothing is rounded. -/
def exact : Rounding := ⟨id, monotone_id, fun _ _ => rfl⟩

@[simp] theorem exact_apply (q : Rat) : exact q = q := rfl

variable (ρ : Rounding) {q : Rat} {n : Nat}

theorem nat (h : n ≤ wholeLimit) : ρ n = n := by
  have hWhole := ρ.whole n (by simpa using h)
  simpa using hWhole

@[simp] theorem zero : ρ 0 = 0 := by simpa using ρ.nat (n := 0) (Nat.zero_le _)

@[simp] theorem one : ρ 1 = 1 := by
  have hOne := ρ.nat (n := 1) (Nat.one_le_two_pow)
  simpa using hOne

theorem nonneg (h : 0 ≤ q) : 0 ≤ ρ q := by simpa using ρ.mono h

theorem le_one (h : q ≤ 1) : ρ q ≤ 1 := by simpa using ρ.mono h

theorem one_le (h : 1 ≤ q) : 1 ≤ ρ q := by simpa using ρ.mono h

theorem le_nat (hn : n ≤ wholeLimit) (h : q ≤ n) : ρ q ≤ n := by
  rw [← ρ.nat hn]
  exact ρ.mono h

theorem nat_le (hn : n ≤ wholeLimit) (h : n ≤ q) : n ≤ ρ q := by
  rw [← ρ.nat hn]
  exact ρ.mono h

end Rounding

-- ---------------------------------------------------------------------------
-- The nearest double
-- ---------------------------------------------------------------------------

open Binary64

/-- The magnitude of the double nearest to a rational. -/
def nearestMagnitude (q : Rat) : Rat :=
  nearestUnits (q.num.natAbs * unitsPerOne) q.den / unitsPerOne

/-- The double nearest to a rational; no magnitude is too large. -/
def nearestDouble (q : Rat) : Rat := if q < 0 then -nearestMagnitude q else nearestMagnitude q

theorem nearestMagnitude_nonneg (q : Rat) : 0 ≤ nearestMagnitude q :=
  div_nonneg (Nat.cast_nonneg _) (Nat.cast_nonneg _)

theorem nearestMagnitude_neg (q : Rat) : nearestMagnitude (-q) = nearestMagnitude q := by
  rw [nearestMagnitude, Rat.neg_num, Rat.neg_den, Int.natAbs_neg, nearestMagnitude]

theorem nearestMagnitude_mono {p q : Rat} (hp : 0 ≤ p) (h : p ≤ q) :
    nearestMagnitude p ≤ nearestMagnitude q := by
  unfold nearestMagnitude
  have hNum : p.num.natAbs * q.den ≤ q.num.natAbs * p.den := by
    have hCross := (Rat.le_iff p q).mp h
    have hpNum := Rat.num_nonneg.mpr hp
    have hqNum := Rat.num_nonneg.mpr (hp.trans h)
    zify
    rwa [abs_of_nonneg hpNum, abs_of_nonneg hqNum]
  have hUnits : nearestUnits (p.num.natAbs * unitsPerOne) p.den ≤
      nearestUnits (q.num.natAbs * unitsPerOne) q.den := by
    refine nearestUnits_mono p.den_pos q.den_pos ?_
    calc p.num.natAbs * unitsPerOne * q.den = p.num.natAbs * q.den * unitsPerOne := by ring
      _ ≤ q.num.natAbs * p.den * unitsPerOne := Nat.mul_le_mul_right _ hNum
      _ = q.num.natAbs * unitsPerOne * p.den := by ring
  exact div_le_div_of_nonneg_right (Nat.cast_le.mpr hUnits) (Nat.cast_nonneg _)

theorem nearestDouble_mono : Monotone nearestDouble := by
  intro p q h
  unfold nearestDouble
  split_ifs with hp hq hq
  · rw [← nearestMagnitude_neg p, ← nearestMagnitude_neg q]
    exact neg_le_neg (nearestMagnitude_mono (by linarith) (by linarith))
  · have hpNonneg := nearestMagnitude_nonneg p
    have hqNonneg := nearestMagnitude_nonneg q
    linarith
  · exact absurd (h.trans_lt hq) hp
  · exact nearestMagnitude_mono (not_lt.mp hp) h

/-- An integer of at most 53 bits is a double. -/
theorem exact_whole {n : Nat} (h : n ≤ wholeLimit) : Exact (n * unitsPerOne) := by
  have hPow : ∀ k, Exact (n * Nat.pow 2 k) := by
    intro k
    show Exact (n * 2 ^ k)
    rcases Nat.eq_or_lt_of_le h with hEq | hLess
    · rw [hEq, wholeLimit, ← Nat.pow_add]
      exact exact_two_pow (53 + k)
    · have hLimit : n * 2 ^ k < 2 ^ (53 + k) := by
        rw [Nat.pow_add]
        exact Nat.mul_lt_mul_of_pos_right hLess (Nat.two_pow_pos k)
      exact Nat.dvd_trans (Nat.pow_dvd_pow 2 (spareBits_le_of_lt hLimit))
        (Nat.dvd_mul_left (2 ^ k) n)
  unfold unitsPerOne
  exact hPow 1074

theorem nearestDouble_whole (n : Int) (h : n.natAbs ≤ wholeLimit) : nearestDouble n = n := by
  have hPos : (unitsPerOne : Rat) ≠ 0 := Nat.cast_ne_zero.mpr (Nat.ne_of_gt unitsPerOne_pos)
  have hMagnitude : nearestMagnitude n = n.natAbs := by
    unfold nearestMagnitude
    rw [Rat.num_intCast, Rat.den_intCast, nearestUnits_of_exact (exact_whole h), Nat.cast_mul,
      mul_div_cancel_right₀ _ hPos]
  unfold nearestDouble
  rw [hMagnitude]
  rw [Nat.cast_natAbs, Int.cast_abs]
  split_ifs with hSign
  · rw [abs_of_neg hSign, neg_neg]
  · exact abs_of_nonneg (not_lt.mp hSign)

/-- Everything is rounded to the nearest double. -/
def Rounding.nearest : Rounding := ⟨nearestDouble, nearestDouble_mono, nearestDouble_whole⟩

-- ---------------------------------------------------------------------------
-- The arithmetic
-- ---------------------------------------------------------------------------

/-- A rational that is rounded after each operation. -/
@[ext] structure Rounded (ρ : Rounding) where
  value : Rat
  deriving DecidableEq, Repr

/-- A rational that is never rounded. -/
abbrev Unrounded : Type := Rounded .exact

instance instArithmeticRounded (ρ : Rounding) : Arithmetic (Rounded ρ) where
  zero := ⟨0⟩
  one := ⟨1⟩
  ofInt n := .ok ⟨ρ n⟩
  quotient m n := .ok ⟨ρ (m / n)⟩
  add x y := ⟨ρ (x.value + y.value)⟩
  sub x y := ⟨ρ (x.value - y.value)⟩
  mul x y := ⟨ρ (x.value * y.value)⟩
  div x y := ⟨ρ (x.value / y.value)⟩
  compare? x y := some (Ord.compare x.value y.value)
  compareInt? x n := some (Ord.compare x.value n)
  floor x := .ok ⌊x.value⌋
  truncate x := .ok (if 0 ≤ x.value then ⌊x.value⌋ else ⌈x.value⌉)

end JoinPlanner
