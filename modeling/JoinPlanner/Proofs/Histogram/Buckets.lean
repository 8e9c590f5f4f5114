import JoinPlanner.Proofs.Histogram.Counts
import JoinPlanner.Proofs.Number.Rounding

/-!
# JoinPlanner — the buckets of a histogram

A bucket is found by a division of doubles. The width of the buckets is at least one, so the
division never leaves the range of doubles, and neither of its roundings lets a larger value
fall into an earlier bucket.

* `Divides`             — a histogram whose buckets are at least one wide.
* `divides_of_create`   — every new histogram is one.
* `Locates`, `Fails`    — the bucket of a value, or why it has none.
* `locate_eq_ok_iff`, `locate_eq_error_iff` — a value has exactly one of both.
* `Locates.mono`        — the buckets of larger values come later.
-/

namespace JoinPlanner.Histogram

open Outcome Binary64

-- ---------------------------------------------------------------------------
-- New histograms
-- ---------------------------------------------------------------------------

/-- There is a bucket, and all buckets are at least one wide. -/
structure Divides (h : Histogram Binary64) : Prop where
  bucket : 0 < h.bucketCount
  width : ∃ units, h.width = .finite false units ∧ unitsPerOne ≤ units

variable {h start : Histogram Binary64} {buckets low high : Int} {v w : Int} {i j : Nat}

/-- The quotient of an integer by a smaller one is at least one, rounding included. -/
theorem one_le_quotient {m n : Int} {x : Binary64} (hn : 0 < n) (hLe : n ≤ m)
    (h : Binary64.quotient m n = .ok x) :
    ∃ units, x = .finite false units ∧ unitsPerOne ≤ units := by
  rw [Binary64.quotient, finiteOr_ofQuotient, decide_eq_false (by omega),
    decide_eq_false (by omega)] at h
  split at h
  · cases h
    refine ⟨_, rfl, le_nearestUnits_of_exact (by omega) exact_unitsPerOne ?_⟩
    rw [Nat.mul_comm]
    exact Nat.mul_le_mul_right _ (by omega)
  · cases h

/-- A new histogram has no more buckets than integers, each of them empty. -/
theorem divides_of_create (hCreate : create buckets low high = .ok h) : h.Divides := by
  obtain ⟨hDomain, hBuckets, width, hWidth, rfl⟩ := create_eq_ok hCreate
  refine ⟨?_, one_le_quotient (by omega) (by omega) hWidth⟩
  rw [bucketCount, Array.size_replicate]
  omega

-- ---------------------------------------------------------------------------
-- Locating
-- ---------------------------------------------------------------------------

/-- The value has its place in the domain, and in the doubles. -/
structure Locates (h : Histogram Binary64) (v : Int) (i : Nat) : Prop where
  domain : h.low ≤ v ∧ v ≤ h.high
  /-- The bucket is the rounded down quotient of two doubles, or else the last bucket. -/
  index : ∃ offset raw, Binary64.ofInt (v - h.low) = .ok offset ∧
    Binary64.floor (offset.div h.width) = .ok raw ∧ 0 ≤ raw ∧
    (i : Int) = min raw (h.bucketCount - 1)

/-- A value is outside of the domain, or too far from its lower end. -/
def Fails (h : Histogram Binary64) (v : Int) (e : PlannerError) : Prop :=
  ((v < h.low ∨ h.high < v) ∧ e = .outsideDomain v h.low h.high) ∨
  (h.low ≤ v ∧ v ≤ h.high ∧ Binary64.ofInt (v - h.low) = .error .integerTooLarge ∧
    e = .number .integerTooLarge)

/-- The distance of a value from the lower end, as the units of a double. -/
def offsetUnits (h : Histogram Binary64) (v : Int) : Nat :=
  nearestUnits ((v - h.low).natAbs * unitsPerOne) 1

/-- The rounded down quotient of a distance by a width, both in units. -/
def rawBucket (offset width : Nat) : Nat :=
  nearestUnits (offset * unitsPerOne) width / unitsPerOne

/-- A distance is divided without leaving the range of doubles. -/
theorem floor_div_of_fits {width : Nat} (hWidth : unitsPerOne ≤ width)
    (hFits : h.offsetUnits v < overflowUnits) :
    Binary64.floor (Binary64.div (.finite false (h.offsetUnits v)) (.finite false width)) =
      .ok (rawBucket (h.offsetUnits v) width) := by
  have hPos : 0 < width := Nat.lt_of_lt_of_le unitsPerOne_pos hWidth
  have hLe : nearestUnits (h.offsetUnits v * unitsPerOne) width ≤ h.offsetUnits v :=
    nearestUnits_le_of_exact hPos (exact_nearestUnits Nat.one_pos) (Nat.mul_le_mul_left _ hWidth)
  rw [div_of_pos hPos, ofQuotient, if_pos (Nat.lt_of_le_of_lt hLe hFits), floor_of_nonneg,
    rawBucket]

theorem rawBucket_mono {width : Nat} (hWidth : 0 < width) {m n : Nat} (hLe : m ≤ n) :
    rawBucket m width ≤ rawBucket n width :=
  Nat.div_le_div_right (nearestUnits_mono hWidth hWidth
    (Nat.mul_le_mul_right width (Nat.mul_le_mul_right unitsPerOne hLe)))

/-- Larger values are farther away. -/
theorem offsetUnits_mono (hLow : h.low ≤ v) (hLe : v ≤ w) : h.offsetUnits v ≤ h.offsetUnits w :=
  nearestUnits_mono Nat.one_pos Nat.one_pos
    (Nat.mul_le_mul_right 1 (Nat.mul_le_mul_right unitsPerOne (by omega)))

theorem locate_of_domain (hDomain : h.low ≤ v ∧ v ≤ h.high) :
    h.locate v = ofNumber (h.bucketIndex (.whole v)) := by
  rw [locate, if_neg (by omega)]
  rfl

/-- An integer is converted as doubles convert it. -/
theorem toReal_whole (n : Int) : Number.toReal (.whole n) = Binary64.ofInt n := by
  rw [Number.toReal]
  rfl

theorem bucketIndex_of_ok {offset : Binary64} {raw : Int}
    (hOffset : Binary64.ofInt (v - h.low) = .ok offset)
    (hFloor : Binary64.floor (offset.div h.width) = .ok raw) :
    h.bucketIndex (.whole v) = .ok (min raw (h.bucketCount - 1)).toNat := by
  refine bind_eq_ok.mpr ⟨.whole (v - h.low), rfl, ?_⟩
  refine bind_eq_ok.mpr ⟨offset, (toReal_whole _).trans hOffset, ?_⟩
  exact bind_eq_ok.mpr ⟨raw, hFloor, rfl⟩

theorem bucketIndex_of_error {e : NumberError} (hOffset : Binary64.ofInt (v - h.low) = .error e) :
    h.bucketIndex (.whole v) = .error e := by
  refine bind_eq_error.mpr (Or.inr ⟨.whole (v - h.low), rfl, ?_⟩)
  exact bind_eq_error.mpr (Or.inl ((toReal_whole _).trans hOffset))

theorem locate_of_locates (hLocates : h.Locates v i) : h.locate v = .ok i := by
  obtain ⟨offset, raw, hOffset, hFloor, -, hIndex⟩ := hLocates.index
  rw [locate_of_domain hLocates.domain, bucketIndex_of_ok hOffset hFloor, ← hIndex]
  rfl

theorem locate_of_fails {e : PlannerError} (hFails : h.Fails v e) : h.locate v = .error e := by
  rcases hFails with ⟨hOut, rfl⟩ | ⟨hLow, hHigh, hOffset, rfl⟩
  · rw [locate, if_pos hOut]
    rfl
  · rw [locate_of_domain ⟨hLow, hHigh⟩, bucketIndex_of_error hOffset]
    rfl

/-- A value has a bucket, or there is a reason why not. -/
theorem locates_or_fails (hDivides : h.Divides) (v : Int) :
    (∃ i, h.Locates v i) ∨ ∃ e, h.Fails v e := by
  by_cases hDomain : h.low ≤ v ∧ v ≤ h.high
  · have hOffset := ofInt_of_nonneg (n := v - h.low) (by omega)
    split at hOffset
    · rename_i hFits
      obtain ⟨width, hWidth, hOne⟩ := hDivides.width
      have hFloor := floor_div_of_fits hOne hFits
      rw [← hWidth] at hFloor
      have hBucket := hDivides.bucket
      have hMin : 0 ≤ min (rawBucket (h.offsetUnits v) width : Int) (h.bucketCount - 1) := by omega
      exact Or.inl ⟨_, hDomain, _, _, hOffset, hFloor, Int.natCast_nonneg _,
        Int.toNat_of_nonneg hMin⟩
    · exact Or.inr ⟨_, Or.inr ⟨hDomain.1, hDomain.2, hOffset, rfl⟩⟩
  · exact Or.inr ⟨_, Or.inl ⟨by omega, rfl⟩⟩

theorem locate_eq_ok_iff (hDivides : h.Divides) : h.locate v = .ok i ↔ h.Locates v i := by
  refine ⟨fun hOk => ?_, locate_of_locates⟩
  rcases locates_or_fails hDivides v with ⟨j, hLocates⟩ | ⟨e, hFails⟩
  · cases hOk.symm.trans (locate_of_locates hLocates)
    exact hLocates
  · cases hOk.symm.trans (locate_of_fails hFails)

theorem locate_eq_error_iff (hDivides : h.Divides) {e : PlannerError} :
    h.locate v = .error e ↔ h.Fails v e := by
  refine ⟨fun hError => ?_, locate_of_fails⟩
  rcases locates_or_fails hDivides v with ⟨j, hLocates⟩ | ⟨e', hFails⟩
  · cases hError.symm.trans (locate_of_locates hLocates)
  · cases hError.symm.trans (locate_of_fails hFails)
    exact hFails

-- ---------------------------------------------------------------------------
-- Order
-- ---------------------------------------------------------------------------

theorem Locates.lt_bucketCount (hLocates : h.Locates v i) (hDivides : h.Divides) :
    i < h.bucketCount := by
  obtain ⟨offset, raw, -, -, -, hIndex⟩ := hLocates.index
  have hBucket := hDivides.bucket
  omega

/-- The bucket of a value in units. -/
theorem Locates.index_eq (hLocates : h.Locates v i) {width : Nat}
    (hWidth : h.width = .finite false width) (hOne : unitsPerOne ≤ width) :
    (i : Int) = min (rawBucket (h.offsetUnits v) width : Int) (h.bucketCount - 1) := by
  obtain ⟨offset, raw, hOffset, hFloor, -, hIndex⟩ := hLocates.index
  have hLow := hLocates.domain.1
  rw [ofInt_of_nonneg (by omega)] at hOffset
  split at hOffset
  · rename_i hFits
    cases hOffset
    rw [hWidth] at hFloor
    obtain rfl := Except.ok.inj ((floor_div_of_fits hOne hFits).symm.trans hFloor)
    exact hIndex
  · cases hOffset

/-- The buckets of larger values come later. -/
theorem Locates.mono (hDivides : h.Divides) (hv : h.Locates v i) (hw : h.Locates w j)
    (hLe : v ≤ w) : i ≤ j := by
  obtain ⟨width, hWidth, hOne⟩ := hDivides.width
  have hRaw := rawBucket_mono (Nat.lt_of_lt_of_le unitsPerOne_pos hOne)
    (offsetUnits_mono hv.domain.1 hLe)
  have hi := hv.index_eq hWidth hOne
  have hj := hw.index_eq hWidth hOne
  omega

end JoinPlanner.Histogram
