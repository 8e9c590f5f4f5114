import JoinPlanner.Proofs.Histogram.Buckets
import JoinPlanner.Proofs.Number.WholeDoubles

/-!
# JoinPlanner — the widths of buckets

The buckets of a new histogram divide the number of integers in its range, and a bucket is
found by the distance of a value from the lower end. Both are quotients of integers, so they
are there unless a distance is beyond the doubles. If there is a bucket for each integer, all
of them are one wide.

* `create_of_domain`, `isNumberError_of_create` — a new histogram, and how else it can fail.
* `exists_create`, `exists_locate` — the histogram of a range, and the buckets of its values.
* `create_of_unit`, `bucketIndex_of_unit`, `edge_of_unit` — a bucket for each integer.
-/

namespace JoinPlanner

open Outcome Binary64

namespace Histogram

-- ---------------------------------------------------------------------------
-- New histograms
-- ---------------------------------------------------------------------------

variable {buckets low high : Int}

/-- For a range with a bucket only the width of the buckets can fail. -/
theorem create_of_domain (hDomain : low ≤ high) (hBuckets : 1 ≤ buckets) :
    (create buckets low high : Outcome (Histogram Binary64)) =
      (ofNumber (Binary64.quotient (high - low + 1) (min buckets (high - low + 1)))).map
        fun width =>
          ⟨low, high, width, Array.replicate (min buckets (high - low + 1)).toNat 0, 0⟩ := by
  rw [create, if_neg (by omega), if_neg (by omega)]
  show ofNumber (Binary64.quotient _ _) >>= _ = _
  cases ofNumber (Binary64.quotient (high - low + 1) (min buckets (high - low + 1))) <;> rfl

theorem isNumberError_of_create (hDomain : low ≤ high) (hBuckets : 1 ≤ buckets)
    {e : PlannerError}
    (h : (create buckets low high : Outcome (Histogram Binary64)) = .error e) :
    e.IsNumberError := by
  rw [create_of_domain hDomain hBuckets] at h
  cases hWidth : Binary64.quotient (high - low + 1) (min buckets (high - low + 1)) with
  | ok width =>
    rw [hWidth] at h
    cases h
  | error cause =>
    rw [hWidth] at h
    cases h
    exact trivial

/-- There is a histogram of a range. Its width is the number of integers in the range if there
is a single bucket, and no more than the largest distance otherwise. -/
theorem exists_create (hDomain : low ≤ high) (hBuckets : 1 ≤ buckets)
    (hDistance : Convertible (high - low))
    (hSingle : buckets = 1 → Convertible (high - low + 1)) :
    ∃ start : Histogram Binary64, create buckets low high = .ok start := by
  have hWidth : ∃ width,
      Binary64.quotient (high - low + 1) (min buckets (high - low + 1)) = .ok width := by
    by_cases hOne : buckets = 1
    · have hCount : min buckets (high - low + 1) = 1 := by omega
      rw [hCount]
      exact quotient_of_le (by omega) (by omega) (by omega) (by omega) (hSingle hOne)
    · rcases eq_or_lt_of_le hDomain with rfl | hMore
      · have hCount : min buckets (low - low + 1) = 1 := by omega
        rw [hCount, Int.sub_self]
        exact quotient_of_le (by omega) (by omega) (by omega) (by omega)
          (convertible_of_le_wholeLimit (n := 1) Nat.one_le_two_pow)
      · refine quotient_of_le (by omega) (by omega) ?_ (by omega) hDistance
        calc high - low + 1 ≤ (high - low) * 2 := by omega
          _ ≤ (high - low) * min buckets (high - low + 1) :=
            Int.mul_le_mul_of_nonneg_left (by omega) (by omega)
  obtain ⟨width, hWidth⟩ := hWidth
  rw [create_of_domain hDomain hBuckets, hWidth]
  exact ⟨_, rfl⟩

/-- A value of the range has a bucket if its distance from the lower end is convertible. -/
theorem exists_locate {h : Histogram Binary64} (hDivides : h.Divides) {v : Int}
    (hDomain : h.low ≤ v ∧ v ≤ h.high) (hDistance : Convertible (v - h.low)) :
    ∃ i, h.locate v = .ok i := by
  rcases locates_or_fails hDivides v with ⟨i, hLocates⟩ | ⟨e, hFails⟩
  · exact ⟨i, locate_of_locates hLocates⟩
  · obtain ⟨d, hOk⟩ := hDistance
    rcases hFails with ⟨hOut, -⟩ | ⟨-, -, hError, -⟩
    · omega
    · cases hOk.symm.trans hError

-- ---------------------------------------------------------------------------
-- Buckets for single integers
-- ---------------------------------------------------------------------------

/-- With as many buckets as integers, or more, all buckets are one wide. -/
theorem create_of_unit (hDomain : low ≤ high) (hBuckets : high - low + 1 ≤ buckets) :
    (create buckets low high : Outcome (Histogram Binary64)) =
      .ok ⟨low, high, one, Array.replicate (high - low + 1).toNat 0, 0⟩ := by
  rw [create_of_domain hDomain (by omega), Int.min_eq_right hBuckets, quotient_self (by omega)]
  rfl

variable {h : Histogram Binary64} {v : Int} {i : Nat}

/-- The bucket of a value is its distance from the lower end. -/
theorem bucketIndex_of_unit (hWidth : h.width = one) (hOffset : v - h.low = i)
    (hSmall : i ≤ wholeLimit) (hBucket : i < h.bucketCount) :
    h.bucketIndex (.whole v) = .ok i := by
  have hFloor : Binary64.floor (div (finite false (i * unitsPerOne)) h.width) = .ok (i : Int) := by
    rw [hWidth, div_one_whole hSmall, floor_of_nonneg, Nat.mul_div_cancel i unitsPerOne_pos]
  rw [bucketIndex_of_ok (hOffset ▸ ofInt_whole hSmall) hFloor]
  congr 1
  omega

/-- The lower edge of a bucket is computed from the double of the lower end. -/
theorem edge_of_unit (hWidth : h.width = one) (hSmall : i ≤ wholeLimit) :
    h.edge i = (Binary64.ofInt h.low).map fun x =>
      Binary64.add x (finite false (i * unitsPerOne)) := by
  have hStep : Number.mul (.whole i) (.real h.width) =
      (.ok (.real (finite false (i * unitsPerOne))) : Except NumberError (Number Binary64)) := by
    refine bind_eq_ok.mpr ⟨_, ofInt_whole hSmall, ?_⟩
    show Except.ok (Number.real (mul _ h.width)) = _
    rw [hWidth, mul_one_whole hSmall]
  cases hLow : Binary64.ofInt h.low with
  | error e =>
    show h.edge i = .error e
    exact bind_eq_error.mpr (Or.inr ⟨_, hStep, bind_eq_error.mpr (Or.inl
      (bind_eq_error.mpr (Or.inl hLow)))⟩)
  | ok x =>
    show h.edge i = .ok (Binary64.add x (finite false (i * unitsPerOne)))
    refine bind_eq_ok.mpr ⟨_, hStep, bind_eq_ok.mpr ⟨.real (Binary64.add x _), ?_, rfl⟩⟩
    exact bind_eq_ok.mpr ⟨x, hLow, rfl⟩

end Histogram

end JoinPlanner
