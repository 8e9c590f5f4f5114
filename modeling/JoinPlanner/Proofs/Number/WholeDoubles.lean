import JoinPlanner.Proofs.Number.Rounded

/-!
# JoinPlanner — integers as doubles

An integer of at most 53 bits is a double, and arithmetic on such integers is exact as long as
it stays among them. The doubles of larger integers are integers too, though other ones; so
two of them are equal, or they are at least one apart.

* `nearestUnits_mul_right` — a quotient is rounded alike if both of its parts are multiplied.
* `Convertible`, `quotient_of_le` — integers that are not beyond the doubles, and quotients
  that are not beyond such an integer.
* `ofInt_whole`            — the integers that are converted as they are.
* `add_whole`, `div_whole` — exact operations on them, and the fraction of two of them.
* `Whole`, `whole_ofInt`, `whole_add` — doubles that are integers.
* `Denotes`, `Denotes.add` — doubles that are a given integer.
-/

namespace JoinPlanner

namespace Binary64

-- ---------------------------------------------------------------------------
-- Quotients
-- ---------------------------------------------------------------------------

/-- A quotient is rounded alike if both of its parts are multiplied by a number. -/
theorem nearestUnits_mul_right {k den : Nat} (hk : 0 < k) (hDen : 0 < den) (num : Nat) :
    nearestUnits (num * k) (den * k) = nearestUnits num den := by
  have hBoth : 0 < den * k := Nat.mul_pos hDen hk
  refine Nat.le_antisymm (nearestUnits_mono hBoth hDen ?_) (nearestUnits_mono hDen hBoth ?_)
  · exact Nat.le_of_eq (by ring)
  · exact Nat.le_of_eq (by ring)

theorem ofQuotient_mul_right {k den : Nat} (hk : 0 < k) (hDen : 0 < den) (negative : Bool)
    (num : Nat) : ofQuotient negative (num * k) (den * k) = ofQuotient negative num den := by
  rw [ofQuotient, nearestUnits_mul_right hk hDen, ofQuotient]

theorem ofQuotient_of_exact {units : Nat} (negative : Bool) (hExact : Exact units)
    (hFits : units < overflowUnits) : ofQuotient negative units 1 = finite negative units := by
  rw [ofQuotient, nearestUnits_of_exact hExact, if_pos hFits]

/-- Whatever is rounded, a division by one changes nothing. -/
theorem div_one_ofQuotient (negative : Bool) (num : Nat) :
    div (ofQuotient negative num 1) one = ofQuotient negative num 1 := by
  rw [ofQuotient]
  split
  · rename_i hFits
    have hExact : Exact (nearestUnits num 1) := exact_nearestUnits Nat.one_pos
    rw [one, div, if_neg (Nat.ne_of_gt unitsPerOne_pos), Bool.xor_false]
    have hScale := ofQuotient_mul_right unitsPerOne_pos Nat.one_pos negative (nearestUnits num 1)
    rw [Nat.one_mul] at hScale
    rw [hScale, ofQuotient_of_exact negative hExact hFits]
  · rw [one, div, Bool.xor_false]

-- ---------------------------------------------------------------------------
-- Convertible integers
-- ---------------------------------------------------------------------------

/-- Some double is nearest to the integer. -/
def Convertible (n : Int) : Prop := ∃ d, ofInt n = .ok d

theorem convertible_iff {n : Int} (h : 0 ≤ n) :
    Convertible n ↔ nearestUnits (n.natAbs * unitsPerOne) 1 < overflowUnits := by
  rw [Convertible, ofInt_of_nonneg h]
  split
  · rename_i hFits
    exact iff_of_true ⟨_, rfl⟩ hFits
  · rename_i hFits
    exact iff_of_false (fun ⟨_, hOk⟩ => by cases hOk) hFits

theorem ofInt_of_not_convertible {n : Int} (h : ¬ Convertible n) :
    ofInt n = .error .integerTooLarge := by
  have hNone : ¬ ∃ d, ofInt n = .ok d := h
  rw [ofInt, finiteOr_ofQuotient] at hNone ⊢
  split
  · rename_i hFits
    rw [if_pos hFits] at hNone
    exact absurd ⟨_, rfl⟩ hNone
  · rfl

theorem Convertible.of_le {m n : Int} (h : Convertible n) (hm : 0 ≤ m) (hLe : m ≤ n) :
    Convertible m := by
  rw [convertible_iff (hm.trans hLe)] at h
  rw [convertible_iff hm]
  refine Nat.lt_of_le_of_lt (nearestUnits_mono Nat.one_pos Nat.one_pos ?_) h
  rw [Nat.mul_one, Nat.mul_one]
  exact Nat.mul_le_mul_right _ (by omega)

/-- A quotient is no farther from zero than an integer that it does not exceed. -/
theorem quotient_of_le {m n bound : Int} (hm : 0 ≤ m) (hn : 0 < n) (hLe : m ≤ bound * n)
    (hBound : 0 ≤ bound) (h : Convertible bound) : ∃ width, Binary64.quotient m n = .ok width := by
  have hSmall : nearestUnits (m.natAbs * unitsPerOne) n.natAbs < overflowUnits := by
    refine Nat.lt_of_le_of_lt (nearestUnits_mono (by omega) Nat.one_pos ?_)
      ((convertible_iff hBound).mp h)
    have hNat : m.natAbs ≤ bound.natAbs * n.natAbs := by
      rw [← Int.natAbs_mul]
      omega
    calc m.natAbs * unitsPerOne * 1 = m.natAbs * unitsPerOne := Nat.mul_one _
      _ ≤ bound.natAbs * n.natAbs * unitsPerOne := Nat.mul_le_mul_right _ hNat
      _ = bound.natAbs * unitsPerOne * n.natAbs := Nat.mul_right_comm _ _ _
  rw [Binary64.quotient, finiteOr_ofQuotient, if_pos hSmall]
  exact ⟨_, rfl⟩

/-- An integer of at most 53 bits is far from the largest double. -/
theorem whole_lt_overflowUnits {n : Nat} (h : n ≤ wholeLimit) :
    n * unitsPerOne < overflowUnits := by
  have hPow : ∀ j k, 53 + j < k → n * Nat.pow 2 j < Nat.pow 2 k := by
    intro j k hLess
    show n * 2 ^ j < 2 ^ k
    calc n * 2 ^ j ≤ 2 ^ 53 * 2 ^ j := Nat.mul_le_mul_right _ h
      _ = 2 ^ (53 + j) := (Nat.pow_add ..).symm
      _ < 2 ^ k := Nat.pow_lt_pow_right Nat.one_lt_two hLess
  unfold unitsPerOne overflowUnits
  exact hPow 1074 2098 (by omega)

/-- An integer of at most 53 bits is converted as it is. -/
theorem ofInt_of_natAbs_le {n : Int} (h : n.natAbs ≤ wholeLimit) :
    ofInt n = .ok (finite (decide (n < 0)) (n.natAbs * unitsPerOne)) := by
  rw [ofInt, ofQuotient_of_exact _ (exact_whole h) (whole_lt_overflowUnits h)]
  rfl

theorem ofInt_whole {n : Nat} (h : n ≤ wholeLimit) :
    ofInt n = .ok (finite false (n * unitsPerOne)) := by
  rw [ofInt_of_natAbs_le (by simpa using h), decide_eq_false (by omega), Int.natAbs_natCast]

theorem convertible_of_le_wholeLimit {n : Int} (h : n.natAbs ≤ wholeLimit) : Convertible n :=
  ⟨_, ofInt_of_natAbs_le h⟩

-- ---------------------------------------------------------------------------
-- Exact operations
-- ---------------------------------------------------------------------------

variable {a b : Nat}

theorem ofQuotient_whole (negative : Bool) (h : a ≤ wholeLimit) :
    ofQuotient negative (a * unitsPerOne) 1 = finite negative (a * unitsPerOne) :=
  ofQuotient_of_exact negative (exact_whole h) (whole_lt_overflowUnits h)

theorem div_one_whole (h : a ≤ wholeLimit) :
    div (finite false (a * unitsPerOne)) one = finite false (a * unitsPerOne) := by
  rw [← ofQuotient_whole false h, div_one_ofQuotient]

theorem ofQuotient_zero (negative : Bool) (den : Nat) :
    ofQuotient negative 0 den = finite negative 0 := by
  rw [ofQuotient, nearestUnits_zero, if_pos overflowUnits_pos]

/-- All of something is one. -/
theorem ofQuotient_self {n : Nat} (h : 0 < n) : ofQuotient false (n * unitsPerOne) n = one := by
  have hScale := ofQuotient_mul_right h Nat.one_pos false unitsPerOne
  rw [Nat.one_mul, Nat.mul_comm] at hScale
  have hOne := ofQuotient_whole (a := 1) false Nat.one_le_two_pow
  rw [Nat.one_mul] at hOne
  rw [hScale, hOne, one]

/-- The quotient of an integer by itself is one. -/
theorem quotient_self {n : Int} (h : 0 < n) : Binary64.quotient n n = .ok one := by
  rw [Binary64.quotient, Bool.xor_self, ofQuotient_self (by omega)]
  rfl

theorem mul_finite (s t : Bool) (m n : Nat) :
    mul (finite s m) (finite t n) = ofQuotient (s ^^ t) (m * n) unitsPerOne := rfl

theorem mul_one_whole (h : a ≤ wholeLimit) :
    mul (finite false (a * unitsPerOne)) one = finite false (a * unitsPerOne) := by
  have hScale := ofQuotient_mul_right unitsPerOne_pos Nat.one_pos false (a * unitsPerOne)
  rw [Nat.one_mul] at hScale
  rw [one, mul_finite, Bool.xor_self, hScale, ofQuotient_whole false h]

theorem one_mul_whole (h : a ≤ wholeLimit) :
    mul one (finite false (a * unitsPerOne)) = finite false (a * unitsPerOne) := by
  have hOne := mul_one_whole h
  rw [one, mul_finite] at hOne ⊢
  rwa [Nat.mul_comm] at hOne

theorem zero_mul_whole (negative : Bool) (a : Nat) :
    mul (finite negative 0) (finite false (a * unitsPerOne)) = finite negative 0 := by
  rw [mul_finite, Nat.zero_mul, ofQuotient_zero, Bool.xor_false]

theorem signedUnits_false (units : Nat) : signedUnits false units = units := rfl

theorem signedUnits_true (units : Nat) : signedUnits true units = -units := rfl

theorem add_finite (s t : Bool) (m n : Nat) :
    add (finite s m) (finite t n) = ofUnits (s && t) (signedUnits s m + signedUnits t n) := rfl

/-- The sum of two small integers; the sign of a zero is lost. -/
theorem add_whole {negative : Bool} (hSign : negative = true → a = 0) (h : a + b ≤ wholeLimit) :
    add (finite negative (a * unitsPerOne)) (finite false (b * unitsPerOne)) =
      finite false ((a + b) * unitsPerOne) := by
  have hUnits : signedUnits negative (a * unitsPerOne) + signedUnits false (b * unitsPerOne) =
      ((a + b) * unitsPerOne : Nat) := by
    cases negative with
    | false => rw [signedUnits_false, signedUnits_false, ← Int.natCast_add, Nat.add_mul]
    | true =>
      rw [hSign rfl, Nat.zero_mul, Nat.zero_add, signedUnits_true, signedUnits_false,
        Int.natCast_zero, Int.neg_zero, Int.zero_add]
  rw [add_finite, hUnits, ofUnits, Bool.and_false]
  split
  · rename_i hZero
    rw [Int.natCast_eq_zero.mp hZero]
  · rw [decide_eq_false (by omega), Int.natAbs_natCast, ofQuotient_whole false h]

/-- The quotient of two integers is rounded once. -/
theorem div_whole (hb : 0 < b) :
    div (finite false (a * unitsPerOne)) (finite false (b * unitsPerOne)) =
      ofQuotient false (a * unitsPerOne) b := by
  rw [div_of_pos (Nat.mul_pos hb unitsPerOne_pos), ofQuotient_mul_right unitsPerOne_pos hb]

-- ---------------------------------------------------------------------------
-- Whole doubles
-- ---------------------------------------------------------------------------

/-- The double is an integer, or infinite. -/
inductive Whole : Binary64 → Prop
  | infinite (negative : Bool) : Whole (infinite negative)
  | finite (negative : Bool) {units : Nat} (whole : unitsPerOne ∣ units) :
      Whole (finite negative units)

/-- Rounding leaves an integer an integer. -/
theorem dvd_nearestUnits {units : Nat} (h : unitsPerOne ∣ units) :
    unitsPerOne ∣ nearestUnits units 1 := by
  have hPow : ∀ k, Nat.pow 2 k ∣ units → Nat.pow 2 k ∣ nearestUnits units 1 := by
    intro k hk
    show 2 ^ k ∣ _
    rcases Nat.le_total (spareBits units) k with hLess | hMore
    · -- no bit of the integer is spare
      rwa [nearestUnits_of_exact (Nat.dvd_trans (Nat.pow_dvd_pow 2 hLess) hk)]
    · rw [nearestUnits_eq, Nat.div_one]
      exact Nat.dvd_trans (Nat.pow_dvd_pow 2 hMore) (Nat.dvd_mul_left _ _)
  unfold unitsPerOne at *
  exact hPow 1074 h

theorem whole_ofQuotient (negative : Bool) {units : Nat} (h : unitsPerOne ∣ units) :
    Whole (ofQuotient negative units 1) := by
  rw [ofQuotient]
  split
  · exact .finite negative (dvd_nearestUnits h)
  · exact .infinite negative

theorem whole_ofInt {n : Int} {x : Binary64} (h : ofInt n = .ok x) : Whole x := by
  rw [ofInt, finiteOr_ofQuotient] at h
  split at h
  · cases h
    exact .finite _ (dvd_nearestUnits (Nat.dvd_mul_left _ _))
  · cases h

theorem exists_finite_of_ofInt {n : Int} {x : Binary64} (h : ofInt n = .ok x) :
    ∃ negative units, x = finite negative units := by
  rw [ofInt, finiteOr_ofQuotient] at h
  split at h
  · cases h
    exact ⟨_, _, rfl⟩
  · cases h

theorem dvd_signedUnits {negative : Bool} {units : Nat} (h : unitsPerOne ∣ units) :
    (unitsPerOne : Int) ∣ signedUnits negative units := by
  have hInt := Int.natCast_dvd_natCast.mpr h
  cases negative with
  | false => exact hInt
  | true => exact (Int.dvd_neg).mpr hInt

theorem whole_add {s t : Bool} {m n : Nat} (hm : unitsPerOne ∣ m) (hn : unitsPerOne ∣ n) :
    Whole (add (finite s m) (finite t n)) := by
  have hSum : (unitsPerOne : Int) ∣ signedUnits s m + signedUnits t n :=
    Int.dvd_add (dvd_signedUnits hm) (dvd_signedUnits hn)
  rw [add, ofUnits]
  split
  · exact .finite _ (Nat.dvd_zero _)
  · exact whole_ofQuotient _ (Int.natCast_dvd.mp hSum)

-- ---------------------------------------------------------------------------
-- Doubles of small integers
-- ---------------------------------------------------------------------------

/-- The double is the integer itself. -/
def Denotes (x : Binary64) (n : Int) : Prop :=
  ∃ negative units, x = finite negative units ∧ signedUnits negative units = n * unitsPerOne

theorem denotes_finite {n : Int} :
    Denotes (finite (decide (n < 0)) (n.natAbs * unitsPerOne)) n := by
  refine ⟨_, _, rfl, ?_⟩
  by_cases hNeg : n < 0
  · rw [decide_eq_true hNeg, signedUnits_true, Int.natCast_mul, ← Int.neg_mul]
    congr 1
    omega
  · rw [decide_eq_false hNeg, signedUnits_false, Int.natCast_mul]
    congr 1
    omega

theorem exists_ofInt_denotes {n : Int} (h : n.natAbs ≤ wholeLimit) :
    ∃ x, ofInt n = .ok x ∧ Denotes x n :=
  ⟨_, ofInt_of_natAbs_le h, denotes_finite⟩

/-- Sums of small integers are exact, whatever their signs. -/
theorem Denotes.add {x y : Binary64} {m n : Int} (hx : Denotes x m) (hy : Denotes y n)
    (h : (m + n).natAbs ≤ wholeLimit) : Denotes (Binary64.add x y) (m + n) := by
  obtain ⟨s, a, rfl, ha⟩ := hx
  obtain ⟨t, b, rfl, hb⟩ := hy
  have hPos : (0 : Int) < unitsPerOne := Int.natCast_pos.mpr unitsPerOne_pos
  rw [add_finite, ha, hb, ← Int.add_mul, ofUnits]
  split
  · rename_i hZero
    refine ⟨s && t, 0, rfl, ?_⟩
    rw [hZero]
    cases (s && t) <;> rfl
  · have hSign : decide ((m + n) * (unitsPerOne : Int) < 0) = decide (m + n < 0) :=
      decide_eq_decide.mpr
        ⟨fun hNeg => neg_of_mul_neg_left hNeg hPos.le,
          fun hNeg => Int.mul_neg_of_neg_of_pos hNeg hPos⟩
    rw [hSign, Int.natAbs_mul, Int.natAbs_natCast, ofQuotient_whole _ h]
    exact denotes_finite

end Binary64

end JoinPlanner
