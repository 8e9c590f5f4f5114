import JoinPlanner.Proofs.Histogram.Distribution
import JoinPlanner.Proofs.Meaning

/-!
# JoinPlanner — the errors of estimates

A histogram forgets where in its bucket a value lies, and no more than that. The buckets before
the one of a boundary hold only smaller values, those after it only larger ones; so without
roundings an estimate is wrong by no more than the values of this one bucket.

* `Comparison.Passes`, `trueFraction` — the fraction that is estimated.
* `Filled.countP_lt_mem`  — which values are below a boundary, but for those in its bucket.
* `below_error`, `equalTo_error` — the errors of the two kinds of estimates.
* `Accurate`, `estimates_accurate` — the statement about all comparisons.
-/

namespace JoinPlanner

-- ---------------------------------------------------------------------------
-- What is estimated
-- ---------------------------------------------------------------------------

/-- The comparison of two integers, where no integer matches a pattern. -/
def Comparison.Passes (op : Comparison) (x v : Int) : Prop := op.Relates (fun _ _ => False) x v

instance (op : Comparison) (x v : Int) : Decidable (op.Passes x v) :=
  match op with
  | .equal => inferInstanceAs (Decidable (x = v))
  | .notEqual => inferInstanceAs (Decidable (x ≠ v))
  | .less => inferInstanceAs (Decidable (x < v))
  | .lessEqual => inferInstanceAs (Decidable (x ≤ v))
  | .greater => inferInstanceAs (Decidable (v < x))
  | .greaterEqual => inferInstanceAs (Decidable (v ≤ x))
  | .like => inferInstanceAs (Decidable False)

/-- The fraction of values for which the comparison holds. -/
def trueFraction (values : List Int) (op : Comparison) (v : Int) : Rat :=
  values.countP (fun x => op.Passes x v) / values.length

/-- Where the values are divided to estimate a comparison: an integer ends before the next one. -/
def Comparison.boundary : Comparison → Int → Int
  | .lessEqual, v => v + 1
  | .greater, v => v + 1
  | _, v => v

/-- Whether the comparison is one of smaller and larger values. -/
def Comparison.isRange : Comparison → Bool
  | .less | .lessEqual | .greater | .greaterEqual => true
  | _ => false

/-- The comparison with the boundary that tells for which values the given one holds. -/
def Comparison.base (op : Comparison) : Comparison := if op.isRange then .less else .equal

variable {values : List Int} {op : Comparison} {v : Int}

/-- Comparisons that hold of the same values hold of the same fraction. -/
theorem trueFraction_congr (other : Comparison) (w : Int)
    (hSame : ∀ x, op.Passes x v ↔ other.Passes x w) :
    trueFraction values op v = trueFraction values other w := by
  unfold trueFraction
  simp only [hSame]

/-- A comparison that holds exactly where another one fails holds of the remaining fraction. -/
theorem trueFraction_compl (other : Comparison) (w : Int) (hSome : values ≠ [])
    (hOpposite : ∀ x, op.Passes x v ↔ ¬ other.Passes x w) :
    trueFraction values op v = 1 - trueFraction values other w := by
  have hLength : (values.length : Rat) ≠ 0 :=
    Nat.cast_ne_zero.mpr fun hZero => hSome (List.length_eq_zero_iff.mp hZero)
  have hBoth : values.countP (fun x => op.Passes x v) + values.countP (fun x => other.Passes x w) =
      values.length := by
    rw [List.length_eq_countP_add_countP (fun x => decide (other.Passes x w)), Nat.add_comm]
    congr 1
    refine List.countP_congr fun x _ => ?_
    simpa using hOpposite x
  unfold trueFraction
  rw [eq_sub_iff_add_eq, ← add_div, div_eq_one_iff_eq hLength]
  exact_mod_cast hBoth

namespace Histogram

variable {h : Histogram Unrounded} {b : Nat}

-- ---------------------------------------------------------------------------
-- Values in buckets
-- ---------------------------------------------------------------------------

/-- Before a bucket are only values below those in it, and after it only values above. -/
theorem Filled.countP_lt_mem (hFilled : h.Filled values) (v : Int) :
    h.countBelow (h.bucketAt v) ≤ values.countP (fun x => x < v) ∧
      values.countP (fun x => x < v) ≤ h.countBelow (h.bucketAt v) + h.countOf (h.bucketAt v) := by
  have hBucket := bucketAt_lt hFilled.bucket v
  have hMono := bucketAt_mono hFilled.one_le_width
  rw [← countBelow_succ, hFilled.countBelow _ hBucket.le, hFilled.countBelow _ hBucket]
  constructor
  · refine List.countP_mono_left fun x _ hx => ?_
    simp only [decide_eq_true_eq] at hx ⊢
    by_contra hLe
    have hLater := hMono (not_lt.mp hLe)
    omega
  · refine List.countP_mono_left fun x _ hx => ?_
    simp only [decide_eq_true_eq] at hx ⊢
    have hEarlier := hMono hx.le
    omega

/-- The values that equal one are in its bucket. -/
theorem Filled.countP_eq_le (hFilled : h.Filled values) (v : Int) :
    values.countP (fun x => x = v) ≤ h.countOf (h.bucketAt v) := by
  rw [hFilled.count _ (bucketAt_lt hFilled.bucket v)]
  refine List.countP_mono_left fun x _ hx => ?_
  simp only [decide_eq_true_eq] at hx
  simp [hx]

/-- Numbers in one interval are no farther apart than it is long. -/
theorem abs_sub_le_of_between (start : Rat) {x y length : Rat}
    (hx : start ≤ x ∧ x ≤ start + length) (hy : start ≤ y ∧ y ≤ start + length) :
    |x - y| ≤ length := by
  rw [abs_le]
  constructor <;> linarith [hx.1, hx.2, hy.1, hy.2]

-- ---------------------------------------------------------------------------
-- Errors
-- ---------------------------------------------------------------------------

theorem trueFraction_less (values : List Int) (v : Int) :
    trueFraction values .less v = values.countP (fun x => x < v) / values.length := rfl

theorem trueFraction_equal (values : List Int) (v : Int) :
    trueFraction values .equal v = values.countP (fun x => x = v) / values.length := rfl

/-- Outside of the domain, and at its lower end, nothing is forgotten. -/
theorem below_exact (hFilled : h.Filled values) (hSome : values ≠ [])
    (hOut : v ≤ h.low ∨ h.high < v) : h.below v = trueFraction values .less v := by
  have hDomain := hFilled.domain
  rw [trueFraction_less]
  by_cases hLow : v ≤ h.low
  · have hNone : values.countP (fun x => x < v) = 0 := by
      refine List.countP_eq_zero.mpr fun x hx => ?_
      have hMem := hFilled.mem x hx
      simp only [decide_eq_true_eq]
      omega
    rw [below, if_pos hLow, hNone, Nat.cast_zero, zero_div]
  · have hHigh : h.high < v := hOut.resolve_left hLow
    have hAll : values.countP (fun x => x < v) = values.length := by
      refine List.countP_eq_length.mpr fun x hx => ?_
      have hMem := hFilled.mem x hx
      simp only [decide_eq_true_eq]
      omega
    rw [below, if_neg hLow, if_pos hHigh, hAll, ← hFilled.total,
      div_self (Nat.cast_ne_zero.mpr (hFilled.total_ne_zero hSome))]

/-- What is estimated below a value differs from what is below it by a part of its bucket. -/
theorem below_error (hFilled : h.Filled values) (hSome : values ≠ [])
    (hDomain : h.low ≤ v ∧ v ≤ h.high) :
    |h.below v - trueFraction values .less v| ≤ h.countOf (h.bucketAt v) / h.total := by
  by_cases hLow : v ≤ h.low
  · rw [below_exact hFilled hSome (Or.inl hLow), sub_self, abs_zero]
    positivity
  obtain ⟨hNonneg, hOne⟩ := positionIn_mem hFilled hDomain.1 hDomain.2
  obtain ⟨hLeast, hMost⟩ := hFilled.countP_lt_mem v
  have hMatched : |h.positionIn (h.bucketAt v) v * h.countOf (h.bucketAt v) +
      h.countBelow (h.bucketAt v) - values.countP (fun x => x < v)| ≤
      h.countOf (h.bucketAt v) := by
    refine abs_sub_le_of_between (h.countBelow (h.bucketAt v)) ⟨?_, ?_⟩ ⟨?_, ?_⟩
    · exact le_add_of_nonneg_left (mul_nonneg hNonneg (Nat.cast_nonneg _))
    · rw [add_comm]
      exact add_le_add_right (mul_le_of_le_one_left (Nat.cast_nonneg _) hOne) _
    · exact_mod_cast hLeast
    · exact_mod_cast hMost
  rw [below_of_mem hFilled (not_le.mp hLow) hDomain.2, spread, trueFraction_less, ← hFilled.total,
    ← sub_div, abs_div, Nat.abs_cast]
  exact div_le_div_of_nonneg_right hMatched (Nat.cast_nonneg _)

theorem equalTo_exact (hFilled : h.Filled values) (hOut : v < h.low ∨ h.high < v) :
    h.equalTo v = trueFraction values .equal v := by
  have hNone : values.countP (fun x => x = v) = 0 := by
    refine List.countP_eq_zero.mpr fun x hx => ?_
    have hMem := hFilled.mem x hx
    simp only [decide_eq_true_eq]
    omega
  rw [equalTo, if_pos hOut, trueFraction_equal, hNone, Nat.cast_zero, zero_div]

/-- The estimate for a value differs from how often it was added by a part of its bucket. -/
theorem equalTo_error (hFilled : h.Filled values) (hDomain : h.low ≤ v ∧ v ≤ h.high) :
    |h.equalTo v - trueFraction values .equal v| ≤ h.countOf (h.bucketAt v) / h.total := by
  have hWidth := hFilled.one_le_width
  have hCount := hFilled.countP_eq_le v
  have hMatched : |(h.countOf (h.bucketAt v) : Rat) / h.width.value -
      values.countP (fun x => x = v)| ≤ h.countOf (h.bucketAt v) := by
    refine abs_sub_le_of_between 0 ⟨?_, ?_⟩ ⟨Nat.cast_nonneg _, ?_⟩
    · exact div_nonneg (Nat.cast_nonneg _) (zero_le_one.trans hWidth)
    · rw [zero_add]
      exact div_le_self (Nat.cast_nonneg _) hWidth
    · rw [zero_add]
      exact Nat.cast_le.mpr hCount
  rw [equalTo, if_neg (by omega), trueFraction_equal, ← hFilled.total]
  simp only [Rounding.exact_apply]
  rw [← sub_div, abs_div, Nat.abs_cast]
  exact div_le_div_of_nonneg_right hMatched (Nat.cast_nonneg _)

-- ---------------------------------------------------------------------------
-- The statement
-- ---------------------------------------------------------------------------

/-- The estimates are wrong by no more than the bucket of the boundary, if it has one. -/
structure Accurate (h : Histogram Unrounded) (values : List Int) (est : Comparison → Int → Rat) :
    Prop where
  within : ∀ op v b, op ≠ .like → h.locate (op.boundary v) = .ok b →
    |est op v - trueFraction values op v| ≤ h.countOf b / h.total
  outside : ∀ op v, op ≠ .like → op.boundary v < h.low ∨ h.high < op.boundary v →
    est op v = trueFraction values op v
  lowest : ∀ op v, op.isRange = true → op.boundary v = h.low →
    est op v = trueFraction values op v

/-- The error of an estimate is that of the comparison with its boundary. -/
theorem Filled.error_eq (hFilled : h.Filled values) (hSome : values ≠ []) (hOp : op ≠ .like)
    (v : Int) : |h.estimated op v - trueFraction values op v| =
      |h.estimated op.base (op.boundary v) - trueFraction values op.base (op.boundary v)| := by
  have hAbove := above_eq hFilled (hFilled.total_ne_zero hSome)
  have hCompl : ∀ x y : Rat, |(1 - x) - (1 - y)| = |x - y| := by
    intro x y
    rw [abs_sub_comm, sub_sub_sub_cancel_left]
  cases op with
  | like => exact absurd rfl hOp
  | equal => rfl
  | less => rfl
  | notEqual =>
    rw [trueFraction_compl .equal v hSome fun x => Iff.rfl]
    exact hCompl (h.equalTo v) (trueFraction values .equal v)
  | lessEqual =>
    rw [trueFraction_congr .less (v + 1) fun x => Int.lt_add_one_iff.symm]
    rfl
  | greater =>
    rw [trueFraction_compl .less (v + 1) hSome fun x => by
      show v < x ↔ ¬ x < v + 1
      omega]
    show |h.above (v + 1) - _| = _
    rw [hAbove]
    exact hCompl (h.below (v + 1)) (trueFraction values .less (v + 1))
  | greaterEqual =>
    rw [trueFraction_compl .less v hSome fun x => not_lt.symm]
    show |h.above v - _| = _
    rw [hAbove]
    exact hCompl (h.below v) (trueFraction values .less v)

/-- Without an error the estimate is the true fraction. -/
theorem eq_of_error_eq {x y x' y' : Rat} (hError : |x - y| = |x' - y'|) (hEq : x' = y') :
    x = y := by
  rw [hEq, sub_self, abs_zero, abs_eq_zero, sub_eq_zero] at hError
  exact hError

/--
Without roundings: a histogram to which values of its domain were added has estimates for all
supported comparisons, and each of them is wrong by no more than one bucket.
-/
theorem estimates_accurate {buckets low high : Int} {values : List Int}
    (hBuckets : 1 ≤ buckets) (hSome : values ≠ [])
    (hValues : ∀ v ∈ values, low ≤ v ∧ v ≤ high) :
    ∃ (start h : Histogram Unrounded) (est : Comparison → Int → Rat),
      create buckets low high = .ok start ∧ start.addAll values = (h, .ok ()) ∧
      h.Estimates est ∧ h.Accurate values est := by
  obtain ⟨start, h, hCreate, hAdded, hFilled⟩ := exists_filled .exact hBuckets hSome hValues
  refine ⟨start, h, h.estimated, hCreate, hAdded, estimate_eq (hFilled.total_ne_zero hSome), {
    within := fun op v b hOp hLocate => ?_
    outside := fun op v hOp hOut => ?_
    lowest := fun op v hRange hLow => ?_ }⟩
  · obtain ⟨hDomain, rfl⟩ := locate_eq_ok_iff_bucketAt.mp hLocate
    rw [hFilled.error_eq hSome hOp, Comparison.base]
    split
    · exact below_error hFilled hSome hDomain
    · exact equalTo_error hFilled hDomain
  · refine eq_of_error_eq (hFilled.error_eq hSome hOp v) ?_
    rw [Comparison.base]
    split
    · exact below_exact hFilled hSome (hOut.imp_left le_of_lt)
    · exact equalTo_exact hFilled hOut
  · have hOp : op ≠ .like := by
      rintro rfl
      cases hRange
    refine eq_of_error_eq (hFilled.error_eq hSome hOp v) ?_
    rw [Comparison.base, if_pos hRange]
    exact below_exact hFilled hSome (Or.inl hLow.le)

/-- The statement for buckets of ten thirds, of which the second one begins between two values. -/
theorem estimates_accurate_thirds :
    ∃ (start h : Histogram Unrounded) (est : Comparison → Int → Rat),
      create 3 0 9 = .ok start ∧ start.addAll [0, 3, 3, 4, 9] = (h, .ok ()) ∧
      h.Estimates est ∧ h.Accurate [0, 3, 3, 4, 9] est :=
  estimates_accurate (by decide) (by decide) (by decide)

end Histogram

end JoinPlanner
