import JoinPlanner.Number.Binary64
import Mathlib.Tactic.Ring
import Mathlib.Tactic.Linarith

/-!
# JoinPlanner — rounding

The integer and the double that are nearest to a quotient never fall as the quotient grows,
even where it passes a power of two and the doubles begin to lie further apart. A double is
nearest to itself.

* `roundHalfEven_mono`  — larger quotients have larger nearest integers.
* `nearestUnits_mono`   — larger quotients have larger nearest magnitudes.
* `Exact`, `exact_nearestUnits` — the magnitudes of doubles, to which all are rounded.
* `nearestUnits_of_exact`  — a double is not rounded any more.
* `nearestUnits_le_of_exact`, `le_nearestUnits_of_exact` — rounding does not cross a double.
* `ofInt_of_nonneg`, `div_of_pos`, `floor_of_nonneg` — operations on what is not negative.
-/

namespace JoinPlanner

-- ---------------------------------------------------------------------------
-- Integers
-- ---------------------------------------------------------------------------

/-- The nearest integer is the quotient or the next one. -/
theorem le_roundHalfEven (num den : Nat) : num / den ≤ roundHalfEven num den := by
  simp only [roundHalfEven]
  split_ifs <;> omega

theorem roundHalfEven_le (num den : Nat) : roundHalfEven num den ≤ num / den + 1 := by
  simp only [roundHalfEven]
  split_ifs <;> omega

/-- The nearest integer is that below exactly for the lower half, with the middle if it is even. -/
theorem roundHalfEven_eq_div_iff {num den : Nat} :
    roundHalfEven num den = num / den ↔
      2 * (num % den) < den ∨ (2 * (num % den) = den ∧ num / den % 2 = 0) := by
  simp only [roundHalfEven]
  split_ifs <;> omega

/-- Quotients are compared by cross multiplication. -/
theorem div_le_div_of_mul_le {a b c d : Nat} (hb : 0 < b) (hd : 0 < d) (h : a * d ≤ c * b) :
    a / b ≤ c / d := by
  rw [Nat.le_div_iff_mul_le hd]
  refine Nat.le_of_mul_le_mul_right (c := b) ?_ hb
  calc a / b * d * b = a / b * b * d := by ring
    _ ≤ a * d := Nat.mul_le_mul_right d (Nat.div_mul_le_self a b)
    _ ≤ c * b := h

/-- Quotients between the same integers are compared by their remainders. -/
theorem mod_mul_le_of_mul_le {a b c d : Nat} (hSame : a / b = c / d) (h : a * d ≤ c * b) :
    a % b * d ≤ c % d * b := by
  have ha := Nat.div_add_mod a b
  have hc := Nat.div_add_mod c d
  rw [← hSame] at hc
  have hSum : b * (a / b) * d + a % b * d ≤ d * (a / b) * b + c % d * b := by
    rw [← Nat.add_mul, ← Nat.add_mul, ha, hc]
    exact h
  have hComm : b * (a / b) * d = d * (a / b) * b := by ring
  omega

/-- Between the same integers, a smaller quotient is rounded down if a larger one is. -/
theorem roundHalfEven_eq_div_of_le {a b c d : Nat} (hb : 0 < b) (hd : 0 < d)
    (hSame : a / b = c / d) (h : a * d ≤ c * b) (hDown : roundHalfEven c d = c / d) :
    roundHalfEven a b = a / b := by
  have hRest := mod_mul_le_of_mul_le hSame h
  rw [roundHalfEven_eq_div_iff] at hDown ⊢
  rcases hDown with hLess | ⟨hHalf, hEven⟩
  · left
    refine Nat.lt_of_mul_lt_mul_right (a := d) ?_
    calc 2 * (a % b) * d = 2 * (a % b * d) := by ring
      _ ≤ 2 * (c % d * b) := Nat.mul_le_mul_left 2 hRest
      _ = 2 * (c % d) * b := by ring
      _ < d * b := Nat.mul_lt_mul_of_pos_right hLess hb
      _ = b * d := Nat.mul_comm d b
  · have hLe : 2 * (a % b) ≤ b := by
      refine Nat.le_of_mul_le_mul_right (c := d) ?_ hd
      calc 2 * (a % b) * d = 2 * (a % b * d) := by ring
        _ ≤ 2 * (c % d * b) := Nat.mul_le_mul_left 2 hRest
        _ = 2 * (c % d) * b := by ring
        _ = b * d := by rw [hHalf, Nat.mul_comm]
    rw [hSame]
    omega

/-- Larger quotients have larger nearest integers. -/
theorem roundHalfEven_mono {a b c d : Nat} (hb : 0 < b) (hd : 0 < d) (h : a * d ≤ c * b) :
    roundHalfEven a b ≤ roundHalfEven c d := by
  have hLow := le_roundHalfEven c d
  have hHigh := roundHalfEven_le a b
  rcases Nat.eq_or_lt_of_le (div_le_div_of_mul_le hb hd h) with hSame | hLess
  · by_cases hDown : roundHalfEven c d = c / d
    · rw [roundHalfEven_eq_div_of_le hb hd hSame h hDown, hDown, hSame]
    · omega
  · omega

/-- A whole quotient is its own nearest integer. -/
theorem roundHalfEven_mul {den : Nat} (hDen : 0 < den) (n : Nat) :
    roundHalfEven (n * den) den = n := by
  rw [roundHalfEven_eq_div_iff.mpr, Nat.mul_div_cancel n hDen]
  rw [Nat.mul_mod_left]
  omega

theorem le_roundHalfEven_of_mul_le {n num den : Nat} (hDen : 0 < den) (h : n * den ≤ num) :
    n ≤ roundHalfEven num den :=
  Nat.le_trans ((Nat.le_div_iff_mul_le hDen).mpr h) (le_roundHalfEven num den)

theorem roundHalfEven_le_of_le_mul {n num den : Nat} (hDen : 0 < den) (h : num ≤ n * den) :
    roundHalfEven num den ≤ n := by
  rw [← roundHalfEven_mul hDen n]
  exact roundHalfEven_mono hDen hDen (Nat.mul_le_mul_right den h)

namespace Binary64

-- ---------------------------------------------------------------------------
-- Spare bits
-- ---------------------------------------------------------------------------

/-- The spare bits do not fit: without them 53 bits are left. -/
theorem lt_two_pow_spareBits (units : Nat) : units < 2 ^ (53 + spareBits units) := by
  have hLog := Nat.lt_log2_self (n := units)
  refine Nat.lt_of_lt_of_le hLog (Nat.pow_le_pow_right Nat.two_pos ?_)
  unfold spareBits
  omega

/-- If there are spare bits, the others are exactly 53. -/
theorem two_pow_le_of_spareBits {units : Nat} (h : 0 < spareBits units) :
    2 ^ (52 + spareBits units) ≤ units := by
  unfold spareBits at *
  have hNe : units ≠ 0 := by
    rintro rfl
    simp at h
  refine Nat.le_trans (Nat.pow_le_pow_right Nat.two_pos ?_) (Nat.log2_self_le hNe)
  omega

theorem spareBits_mono {m n : Nat} (h : m ≤ n) : spareBits m ≤ spareBits n := by
  rcases Nat.eq_zero_or_pos (spareBits m) with hZero | hPos
  · omega
  · have hLow := two_pow_le_of_spareBits hPos
    have hHigh := lt_two_pow_spareBits n
    have hLt := (Nat.pow_lt_pow_iff_right (a := 2) (by omega)).mp
      (Nat.lt_of_le_of_lt (Nat.le_trans hLow h) hHigh)
    omega

/-- A magnitude below a power of two has no more spare bits than fit below it. -/
theorem spareBits_le_of_lt {units bits : Nat} (h : units < 2 ^ (53 + bits)) :
    spareBits units ≤ bits := by
  by_contra hMore
  have hLow : 2 ^ (52 + spareBits units) ≤ units := two_pow_le_of_spareBits (by omega)
  have hLt := (Nat.pow_lt_pow_iff_right (a := 2) (by omega)).mp (Nat.lt_of_le_of_lt hLow h)
  omega

-- ---------------------------------------------------------------------------
-- Nearest magnitudes
-- ---------------------------------------------------------------------------

/-- The magnitude nearest to a quotient, with the power of two that separates its neighbours. -/
theorem nearestUnits_eq (num den : Nat) : nearestUnits num den =
    roundHalfEven num (den * 2 ^ spareBits (num / den)) * 2 ^ spareBits (num / den) := rfl

/-- A rounded magnitude has at most the next power of two. -/
theorem nearestUnits_le_two_pow {num den : Nat} (hDen : 0 < den) :
    nearestUnits num den ≤ 2 ^ (53 + spareBits (num / den)) := by
  rw [nearestUnits_eq, Nat.pow_add]
  refine Nat.mul_le_mul_right _ (roundHalfEven_le_of_le_mul (by positivity) ?_)
  have hLt := (Nat.div_lt_iff_lt_mul hDen).mp (lt_two_pow_spareBits (num / den))
  calc num ≤ 2 ^ (53 + spareBits (num / den)) * den := Nat.le_of_lt hLt
    _ = 2 ^ 53 * (den * 2 ^ spareBits (num / den)) := by rw [Nat.pow_add]; ring

theorem two_pow_le_nearestUnits {num den : Nat} (hDen : 0 < den)
    (h : 0 < spareBits (num / den)) :
    2 ^ (52 + spareBits (num / den)) ≤ nearestUnits num den := by
  rw [nearestUnits_eq, Nat.pow_add]
  refine Nat.mul_le_mul_right _ (le_roundHalfEven_of_mul_le (by positivity) ?_)
  have hLe := (Nat.le_div_iff_mul_le hDen).mp (two_pow_le_of_spareBits h)
  calc 2 ^ 52 * (den * 2 ^ spareBits (num / den)) = 2 ^ (52 + spareBits (num / den)) * den := by
        rw [Nat.pow_add]; ring
    _ ≤ num := hLe

theorem nearestUnits_zero (den : Nat) : nearestUnits 0 den = 0 := by
  have hRound : ∀ d, roundHalfEven 0 d = 0 := by
    intro d
    simp [roundHalfEven]
  rw [nearestUnits_eq, hRound, Nat.zero_mul]

/-- No integer but zero is rounded to zero. -/
theorem nearestUnits_pos {num : Nat} (h : 0 < num) : 0 < nearestUnits num 1 := by
  have hStep : 0 < 2 ^ spareBits num := Nat.two_pow_pos _
  have hLe : 2 ^ spareBits num ≤ num :=
    Nat.le_trans (Nat.pow_le_pow_right (by omega) (Nat.sub_le _ _))
      (Nat.log2_self_le (Nat.ne_of_gt h))
  rw [nearestUnits_eq, Nat.div_one, Nat.one_mul]
  exact Nat.mul_pos (le_roundHalfEven_of_mul_le hStep (by omega)) hStep

/-- Larger quotients have larger nearest magnitudes. -/
theorem nearestUnits_mono {a b c d : Nat} (hb : 0 < b) (hd : 0 < d) (h : a * d ≤ c * b) :
    nearestUnits a b ≤ nearestUnits c d := by
  rcases Nat.eq_or_lt_of_le (spareBits_mono (div_le_div_of_mul_le hb hd h)) with hSame | hLess
  · -- between the same powers of two the nearest integers decide
    rw [nearestUnits_eq, nearestUnits_eq, hSame]
    refine Nat.mul_le_mul_right _ (roundHalfEven_mono (by positivity) (by positivity) ?_)
    calc a * (d * 2 ^ spareBits (c / d)) = a * d * 2 ^ spareBits (c / d) := by ring
      _ ≤ c * b * 2 ^ spareBits (c / d) := Nat.mul_le_mul_right _ h
      _ = c * (b * 2 ^ spareBits (c / d)) := by ring
  · -- otherwise there is a power of two between them
    calc nearestUnits a b ≤ 2 ^ (53 + spareBits (a / b)) := nearestUnits_le_two_pow hb
      _ ≤ 2 ^ (52 + spareBits (c / d)) := Nat.pow_le_pow_right Nat.two_pos (by omega)
      _ ≤ nearestUnits c d := two_pow_le_nearestUnits hd (by omega)

-- ---------------------------------------------------------------------------
-- Exact magnitudes
-- ---------------------------------------------------------------------------

/-- The magnitude has no bits to spare that are set: it is that of a double. -/
def Exact (units : Nat) : Prop := 2 ^ spareBits units ∣ units

theorem nearestUnits_of_exact {units : Nat} (h : Exact units) : nearestUnits units 1 = units := by
  obtain ⟨n, hn⟩ := h
  rw [nearestUnits_eq, Nat.div_one, Nat.one_mul]
  generalize spareBits units = spare at hn ⊢
  rw [hn, Nat.mul_comm (2 ^ spare), roundHalfEven_mul (Nat.two_pow_pos spare)]

theorem exact_two_pow (k : Nat) : Exact (2 ^ k) := by
  refine Nat.pow_dvd_pow 2 ?_
  rw [spareBits, Nat.log2_two_pow]
  omega

/-- What was rounded is a double. -/
theorem exact_nearestUnits {num den : Nat} (hDen : 0 < den) : Exact (nearestUnits num den) := by
  have hLe : nearestUnits num den ≤ 2 ^ (53 + spareBits (num / den)) := nearestUnits_le_two_pow hDen
  rcases Nat.eq_or_lt_of_le hLe with hEq | hLt
  · rw [hEq]
    exact exact_two_pow _
  · exact Nat.dvd_trans (Nat.pow_dvd_pow 2 (spareBits_le_of_lt hLt)) (Nat.dvd_mul_left _ _)

/-- A quotient that is at most a double is not rounded above it. -/
theorem nearestUnits_le_of_exact {units num den : Nat} (hDen : 0 < den) (hExact : Exact units)
    (h : num ≤ units * den) : nearestUnits num den ≤ units := by
  rw [← nearestUnits_of_exact hExact]
  exact nearestUnits_mono hDen Nat.one_pos (by omega)

/-- A quotient that is at least a double is not rounded below it. -/
theorem le_nearestUnits_of_exact {units num den : Nat} (hDen : 0 < den) (hExact : Exact units)
    (h : units * den ≤ num) : units ≤ nearestUnits num den := by
  rw [← nearestUnits_of_exact hExact]
  exact nearestUnits_mono Nat.one_pos hDen (by omega)

/-- One is a double. -/
theorem exact_unitsPerOne : Exact unitsPerOne := by
  have hPow : ∀ k, Exact (Nat.pow 2 k) := exact_two_pow
  unfold unitsPerOne
  exact hPow 1074

-- ---------------------------------------------------------------------------
-- Doubles
-- ---------------------------------------------------------------------------

theorem finiteOr_ofQuotient (failure : NumberError) (negative : Bool) (num den : Nat) :
    finiteOr failure (ofQuotient negative num den) =
      if nearestUnits num den < overflowUnits then .ok (finite negative (nearestUnits num den))
      else .error failure := by
  rw [ofQuotient]
  split <;> rfl

theorem unitsPerOne_pos : 0 < unitsPerOne := by
  have hPow : ∀ k, 0 < Nat.pow 2 k := fun k => Nat.two_pow_pos k
  unfold unitsPerOne
  exact hPow 1074

theorem overflowUnits_pos : 0 < overflowUnits := by
  have hPow : ∀ k, 0 < Nat.pow 2 k := fun k => Nat.two_pow_pos k
  unfold overflowUnits
  exact hPow 2098

/-- A natural number is converted to the double nearest to it, if that is finite. -/
theorem ofInt_of_nonneg {n : Int} (h : 0 ≤ n) : ofInt n =
    if nearestUnits (n.natAbs * unitsPerOne) 1 < overflowUnits
    then .ok (finite false (nearestUnits (n.natAbs * unitsPerOne) 1))
    else .error .integerTooLarge := by
  rw [ofInt, finiteOr_ofQuotient, decide_eq_false (by omega)]

/-- The quotient of two doubles that are not negative is rounded once. -/
theorem div_of_pos {m n : Nat} (h : 0 < n) :
    div (finite false m) (finite false n) = ofQuotient false (m * unitsPerOne) n := by
  rw [div, if_neg (Nat.ne_of_gt h)]
  rfl

theorem floor_of_nonneg (units : Nat) :
    floor (finite false units) = .ok ((units / unitsPerOne : Nat) : Int) := by
  rw [floor, signedUnits, if_neg Bool.false_ne_true, Int.ofNat_fdiv]

end Binary64

end JoinPlanner
