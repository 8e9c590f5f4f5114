import JoinPlanner.Proofs.Histogram.Estimates

/-!
# JoinPlanner — estimates as a distribution

Without roundings the estimates of a histogram are those of one distribution: the values of a
bucket are spread evenly over it. So what is estimated below a value and what is estimated from
it on make up everything, and the estimate for a value is what lies between it and the next one.

* `bucketAt_spec`, `bucketAt_eq` — a value lies between the edges of its bucket.
* `spread`, `below_eq_spread` — what lies below a value is read off any bucket that reaches it.
* `above_eq`        — everything else lies above.
* `Filled.below_mono`, `Filled.above_anti` — no less lies below a larger value, and no more above.
* `below_succ`      — between a value and the next one lies the estimate for the value.
* `Distributed`, `estimates_distributed` — the statement about all comparisons.
-/

namespace JoinPlanner.Histogram

variable {h : Histogram Unrounded} {v : Int} {a b : Nat} {values : List Int}

-- ---------------------------------------------------------------------------
-- Edges
-- ---------------------------------------------------------------------------

@[simp] theorem edgeAt_exact (h : Histogram Unrounded) (b : Nat) :
    h.edgeAt b = h.low + b * h.width.value := rfl

theorem edgeAt_succ (h : Histogram Unrounded) (b : Nat) :
    h.edgeAt (b + 1) = h.edgeAt b + h.width.value := by
  rw [edgeAt_exact, edgeAt_exact, Nat.cast_succ]
  ring

theorem edgeAt_mono (hWidth : 1 ≤ h.width.value) : Monotone h.edgeAt := by
  intro a b hLe
  have hCast : (a : Rat) ≤ b := Nat.cast_le.mpr hLe
  have hMul := mul_le_mul_of_nonneg_right hCast (zero_le_one.trans hWidth)
  simpa using hMul

/-- The last bucket ends where the unit interval of the largest value ends. -/
theorem Filled.last_edge (hFilled : h.Filled values) : h.edgeAt h.bucketCount = h.high + 1 := by
  have hPos : (h.bucketCount : Rat) ≠ 0 := Nat.cast_ne_zero.mpr (Nat.ne_of_gt hFilled.bucket)
  rw [edgeAt_exact, hFilled.width, Rounding.exact_apply, mul_div_cancel₀ _ hPos]
  push_cast
  ring

/-- A value that lies between the edges of a bucket belongs to it. -/
theorem bucketAt_eq (hWidth : 1 ≤ h.width.value) (hb : b < h.bucketCount)
    (hLeft : h.edgeAt b ≤ v) (hRight : v < h.edgeAt (b + 1)) : h.bucketAt v = b := by
  have hPos : 0 < h.width.value := zero_lt_one.trans_le hWidth
  have hFloor : ⌊((v - h.low : Int) : Rat) / h.width.value⌋ = b := by
    rw [Int.floor_eq_iff, le_div_iff₀ hPos, div_lt_iff₀ hPos]
    simp only [edgeAt_exact] at hLeft hRight
    push_cast at hRight ⊢
    constructor <;> linarith
  simp only [bucketAt, Rounding.exact_apply, hFloor]
  omega

/-- The edges of its bucket are around every value of the domain. -/
theorem bucketAt_spec (hFilled : h.Filled values) (hLow : h.low ≤ v) (hHigh : v ≤ h.high) :
    h.edgeAt (h.bucketAt v) ≤ v ∧ v < h.edgeAt (h.bucketAt v + 1) := by
  have hPos : 0 < h.width.value := zero_lt_one.trans_le hFilled.one_le_width
  have hLast := hFilled.last_edge
  have hDistance : (0 : Rat) ≤ (v - h.low : Int) := by exact_mod_cast Int.sub_nonneg.mpr hLow
  have hNonneg : 0 ≤ ⌊((v - h.low : Int) : Rat) / h.width.value⌋ :=
    Int.floor_nonneg.mpr (div_nonneg hDistance hPos.le)
  have hLess : ⌊((v - h.low : Int) : Rat) / h.width.value⌋ < h.bucketCount := by
    rw [Int.floor_lt, div_lt_iff₀ hPos]
    have hCast : (v : Rat) ≤ h.high := Int.cast_le.mpr hHigh
    rw [edgeAt_exact] at hLast
    push_cast
    linarith
  have hBucket : (h.bucketAt v : Int) = ⌊((v - h.low : Int) : Rat) / h.width.value⌋ := by
    simp only [bucketAt, Rounding.exact_apply]
    omega
  have hCast : (h.bucketAt v : Rat) = (⌊((v - h.low : Int) : Rat) / h.width.value⌋ : Int) := by
    rw [← hBucket, Int.cast_natCast]
  have hFloor := (le_div_iff₀ hPos).mp (Int.floor_le (((v - h.low : Int) : Rat) / h.width.value))
  have hNext := (div_lt_iff₀ hPos).mp
    (Int.lt_floor_add_one (((v - h.low : Int) : Rat) / h.width.value))
  rw [edgeAt_succ, edgeAt_exact, hCast]
  push_cast at hFloor hNext ⊢
  constructor <;> linarith

-- ---------------------------------------------------------------------------
-- Below and above
-- ---------------------------------------------------------------------------

theorem cut_of_unit {q : Rat} (hNonneg : 0 ≤ q) (hOne : q ≤ 1) : cut q = q := by
  rw [cut, max_eq_left hNonneg, min_eq_left hOne]

/-- How far a value lies in a bucket, as a fraction of its width. -/
def positionIn (h : Histogram Unrounded) (b : Nat) (v : Int) : Rat :=
  (v - h.edgeAt b) / h.width.value

/-- The fraction of values below the given one, if the values of a bucket are spread evenly. -/
def spread (h : Histogram Unrounded) (b : Nat) (v : Int) : Rat :=
  (h.positionIn b v * h.countOf b + h.countBelow b) / h.total

theorem positionIn_succ (hWidth : 1 ≤ h.width.value) (b : Nat) (v : Int) :
    h.positionIn b v = h.positionIn (b + 1) v + 1 := by
  have hPos : h.width.value ≠ 0 := (zero_lt_one.trans_le hWidth).ne'
  rw [positionIn, positionIn, edgeAt_succ, ← sub_sub, sub_div _ h.width.value, div_self hPos]
  ring

/-- At the lower edge of a bucket only the buckets before it count. -/
theorem spread_of_edge (hEdge : h.edgeAt b = v) : h.spread b v = h.countBelow b / h.total := by
  rw [spread, positionIn, hEdge, sub_self, zero_div, zero_mul, zero_add]

/-- Where two buckets meet it does not matter which one is read. -/
theorem spread_succ (hWidth : 1 ≤ h.width.value) (hEdge : h.edgeAt (b + 1) = v) :
    h.spread b v = h.spread (b + 1) v := by
  have hZero : h.positionIn (b + 1) v = 0 := by rw [positionIn, hEdge, sub_self, zero_div]
  rw [spread, spread, positionIn_succ hWidth, hZero, countBelow_succ, Nat.cast_add]
  ring

/-- All values lie before the end of the last bucket. -/
theorem Filled.countBelow_last (hFilled : h.Filled values) :
    h.countBelow h.bucketCount = h.total := by
  rw [countBelow_eq_sum, List.take_of_length_le (by simp [bucketCount]), hFilled.sum]

/-- The position in the bucket of a value is a fraction, so that nothing is cut off. -/
theorem positionIn_mem (hFilled : h.Filled values) (hLow : h.low ≤ v) (hHigh : v ≤ h.high) :
    0 ≤ h.positionIn (h.bucketAt v) v ∧ h.positionIn (h.bucketAt v) v ≤ 1 := by
  have hPos : 0 < h.width.value := zero_lt_one.trans_le hFilled.one_le_width
  obtain ⟨hLeft, hRight⟩ := bucketAt_spec hFilled hLow hHigh
  rw [edgeAt_succ] at hRight
  constructor
  · exact div_nonneg (sub_nonneg.mpr hLeft) hPos.le
  · exact (div_le_one hPos).mpr (by linarith)

/-- Inside of the domain nothing is cut off and the bucket of the value is read. -/
theorem below_of_mem (hFilled : h.Filled values) (hLow : h.low < v) (hHigh : v ≤ h.high) :
    h.below v = h.spread (h.bucketAt v) v := by
  obtain ⟨hNonneg, hOne⟩ := positionIn_mem hFilled hLow.le hHigh
  rw [below, if_neg (by omega), if_neg (by omega)]
  show (cut (h.positionIn (h.bucketAt v) v) * _ + _) / _ = _
  rw [cut_of_unit hNonneg hOne]
  rfl

/-- What lies below a value is no less than the whole buckets before it, and no more than these
with its own bucket. -/
theorem below_mem_buckets (hFilled : h.Filled values) (hLow : h.low < v) (hHigh : v ≤ h.high) :
    (h.countBelow (h.bucketAt v) / h.total : Rat) ≤ h.below v ∧
      h.below v ≤ h.countBelow (h.bucketAt v + 1) / h.total := by
  obtain ⟨hNonneg, hOne⟩ := positionIn_mem hFilled hLow.le hHigh
  have hCount : (0 : Rat) ≤ h.countOf (h.bucketAt v) := Nat.cast_nonneg _
  rw [below_of_mem hFilled hLow hHigh, spread, countBelow_succ, Nat.cast_add,
    add_comm (h.countBelow (h.bucketAt v) : Rat)]
  constructor
  · exact div_le_div_of_nonneg_right (le_add_of_nonneg_left (mul_nonneg hNonneg hCount))
      (Nat.cast_nonneg _)
  · exact div_le_div_of_nonneg_right (add_le_add_left (mul_le_of_le_one_left hCount hOne) _)
      (Nat.cast_nonneg _)

theorem Filled.below_mem (hFilled : h.Filled values) (v : Int) :
    0 ≤ h.below v ∧ h.below v ≤ 1 := by
  by_cases hLow : v ≤ h.low
  · rw [below, if_pos hLow]
    exact ⟨le_rfl, zero_le_one⟩
  by_cases hHigh : h.high < v
  · rw [below, if_neg hLow, if_pos hHigh]
    exact ⟨zero_le_one, le_rfl⟩
  obtain ⟨hLeast, hMost⟩ := below_mem_buckets hFilled (not_le.mp hLow) (not_lt.mp hHigh)
  have hAll : h.countBelow (h.bucketAt v + 1) ≤ h.total := by
    rw [← hFilled.countBelow_last]
    exact countBelow_mono (bucketAt_lt hFilled.bucket v)
  constructor
  · exact (div_nonneg (Nat.cast_nonneg _) (Nat.cast_nonneg _)).trans hLeast
  · exact hMost.trans (div_le_one_of_le₀ (Nat.cast_le.mpr hAll) (Nat.cast_nonneg _))

/-- No less lies below a larger value. Without roundings this is so for any number of values. -/
theorem Filled.below_mono (hFilled : h.Filled values) : Monotone h.below := by
  intro v w hLe
  by_cases hLow : v ≤ h.low
  · have hZero : h.below v = 0 := by rw [below, if_pos hLow]
    rw [hZero]
    exact (hFilled.below_mem w).1
  by_cases hHigh : h.high < w
  · have hOne : h.below w = 1 := by rw [below, if_neg (by omega), if_pos hHigh]
    rw [hOne]
    exact (hFilled.below_mem v).2
  have hWidth := hFilled.one_le_width
  rcases Nat.eq_or_lt_of_le (bucketAt_mono hWidth hLe) with hSame | hLess
  · -- in one bucket the larger value comes later
    have hPosition : h.positionIn (h.bucketAt w) v ≤ h.positionIn (h.bucketAt w) w :=
      div_le_div_of_nonneg_right (sub_le_sub_right (Int.cast_le.mpr hLe) _)
        (zero_le_one.trans hWidth)
    rw [below_of_mem hFilled (by omega) (by omega), below_of_mem hFilled (by omega) (by omega),
      hSame, spread, spread]
    exact div_le_div_of_nonneg_right
      (add_le_add_left (mul_le_mul_of_nonneg_right hPosition (Nat.cast_nonneg _)) _)
      (Nat.cast_nonneg _)
  · calc h.below v ≤ h.countBelow (h.bucketAt v + 1) / h.total :=
          (below_mem_buckets hFilled (by omega) (by omega)).2
      _ ≤ h.countBelow (h.bucketAt w) / h.total :=
          div_le_div_of_nonneg_right (Nat.cast_le.mpr (countBelow_mono hLess)) (Nat.cast_nonneg _)
      _ ≤ h.below w := (below_mem_buckets hFilled (by omega) (by omega)).1

/-- What lies below a value is read off any bucket that reaches it. -/
theorem below_eq_spread (hFilled : h.Filled values) (hSome : h.total ≠ 0)
    (hb : b < h.bucketCount) (hLeft : h.edgeAt b ≤ v) (hRight : v ≤ h.edgeAt (b + 1)) :
    h.below v = h.spread b v := by
  have hWidth := hFilled.one_le_width
  by_cases hLow : v ≤ h.low
  · -- the value is the smallest one, and the bucket the first one
    have hLowCast : (v : Rat) ≤ h.low := Int.cast_le.mpr hLow
    have hFirst : h.edgeAt 0 = h.low := by simp
    have hZero : b = 0 := by
      by_contra hLater
      have hSecond := edgeAt_mono hWidth (Nat.one_le_iff_ne_zero.mpr hLater)
      rw [show 1 = 0 + 1 from rfl, edgeAt_succ] at hSecond
      linarith
    have hEdge : h.edgeAt b = v := by
      rw [hZero] at hLeft ⊢
      linarith
    rw [below, if_pos hLow, spread_of_edge hEdge, hZero, countBelow_zero, Nat.cast_zero, zero_div]
  by_cases hHigh : h.high < v
  · -- the value is the one after the largest, and the bucket the last one
    have hHighCast : (h.high : Rat) + 1 ≤ v := by exact_mod_cast hHigh
    have hEnd := hFilled.last_edge
    have hLast : b + 1 = h.bucketCount := by
      by_contra hEarlier
      have hNext := edgeAt_mono hWidth (show b + 1 + 1 ≤ h.bucketCount by omega)
      rw [edgeAt_succ] at hNext
      linarith
    have hEdge : h.edgeAt (b + 1) = v := by
      rw [hLast] at hRight ⊢
      linarith
    rw [below, if_neg hLow, if_pos hHigh, spread_succ hWidth hEdge, spread_of_edge hEdge, hLast,
      hFilled.countBelow_last, div_self (Nat.cast_ne_zero.mpr hSome)]
  rw [below_of_mem hFilled (not_le.mp hLow) (not_lt.mp hHigh)]
  rcases hRight.lt_or_eq with hInside | hEdge
  · rw [bucketAt_eq hWidth hb hLeft hInside]
  · -- the value is the first one of the next bucket
    have hNext : b + 1 < h.bucketCount := by
      by_contra hLast
      have hHighCast : (v : Rat) ≤ h.high := Int.cast_le.mpr (not_lt.mp hHigh)
      have hEnd := hFilled.last_edge
      rw [show h.bucketCount = b + 1 by omega] at hEnd
      linarith
    have hBucket : h.bucketAt v = b + 1 := by
      refine bucketAt_eq hWidth hNext hEdge.ge ?_
      rw [edgeAt_succ, ← hEdge]
      linarith
    rw [hBucket, spread_succ hWidth hEdge.symm]

/-- What does not lie below a value lies above. -/
theorem above_eq (hFilled : h.Filled values) (hSome : h.total ≠ 0) (v : Int) :
    h.above v = 1 - h.below v := by
  by_cases hLow : v ≤ h.low
  · rw [above, below, if_pos hLow, if_pos hLow, sub_zero]
  by_cases hHigh : h.high < v
  · rw [above, below, if_neg hLow, if_pos hHigh, if_neg hLow, if_pos hHigh, sub_self]
  push Not at hLow hHigh
  have hPos : h.width.value ≠ 0 := (zero_lt_one.trans_le hFilled.one_le_width).ne'
  obtain ⟨hNonneg, hOne⟩ := positionIn_mem hFilled hLow.le hHigh
  have hRest : (h.edgeAt (h.bucketAt v + 1) - v) / h.width.value =
      1 - h.positionIn (h.bucketAt v) v := by
    rw [edgeAt_succ, positionIn]
    field_simp
    ring
  have hAbove : h.above v = ((1 - h.positionIn (h.bucketAt v) v) * h.countOf (h.bucketAt v) +
      h.countAbove (h.bucketAt v)) / h.total := by
    rw [above, if_neg (by omega), if_neg (by omega)]
    show (cut ((h.edgeAt (h.bucketAt v + 1) - v) / h.width.value) * _ + _) / _ = _
    rw [hRest, cut_of_unit (by linarith) (by linarith)]
    rfl
  have hAll : (h.countBelow (h.bucketAt v) : Rat) + h.countOf (h.bucketAt v) +
      h.countAbove (h.bucketAt v) = h.total := by
    exact_mod_cast countBelow_add_countAbove hFilled.sum (h.bucketAt v)
  have hTotal : (h.total : Rat) ≠ 0 := Nat.cast_ne_zero.mpr hSome
  rw [hAbove, below_of_mem hFilled hLow hHigh, spread, eq_sub_iff_add_eq, ← add_div,
    div_eq_one_iff_eq hTotal]
  linarith

/-- No more lies above a larger value. -/
theorem Filled.above_anti (hFilled : h.Filled values) (hSome : h.total ≠ 0) :
    Antitone h.above := by
  intro v w hLe
  rw [above_eq hFilled hSome, above_eq hFilled hSome]
  exact sub_le_sub_left (hFilled.below_mono hLe) 1

/-- Between a value and the next one lies the estimate for the value. -/
theorem below_succ (hFilled : h.Filled values) (hSome : h.total ≠ 0) (hLow : h.low ≤ v)
    (hHigh : v ≤ h.high) (hb : b < h.bucketCount) (hLeft : h.edgeAt b ≤ v)
    (hRight : v + 1 ≤ h.edgeAt (b + 1)) : h.below (v + 1) = h.below v + h.equalTo v := by
  have hNext : ((v + 1 : Int) : Rat) = v + 1 := by push_cast; rfl
  have hBucket : h.bucketAt v = b := bucketAt_eq hFilled.one_le_width hb hLeft (by linarith)
  rw [below_eq_spread hFilled hSome hb hLeft (by linarith),
    below_eq_spread hFilled hSome hb (by rw [hNext]; linarith) (by rw [hNext]; exact hRight),
    equalTo, if_neg (by omega), hBucket]
  simp only [spread, positionIn, Rounding.exact_apply, hNext]
  ring

-- ---------------------------------------------------------------------------
-- The statement
-- ---------------------------------------------------------------------------

/-- The unit interval of a value lies between the edges of one bucket. -/
def Spans (h : Histogram Unrounded) (b : Nat) (v : Int) : Prop :=
  b < h.bucketCount ∧ ∃ left right, h.edge b = .ok left ∧ h.edge (b + 1) = .ok right ∧
    left.value ≤ v ∧ v + 1 ≤ right.value

/-- Opposite estimates make up everything. -/
structure Distributed (h : Histogram Unrounded) (est : Comparison → Int → Rat) : Prop where
  less_greaterEqual : ∀ v, est .less v + est .greaterEqual v = 1
  lessEqual_greater : ∀ v, est .lessEqual v + est .greater v = 1
  equal_notEqual : ∀ v, est .equal v + est .notEqual v = 1
  /-- A value of the domain that is in no second bucket is below, equal, or above. -/
  less_equal_greater : ∀ v b, h.low ≤ v → v ≤ h.high → h.Spans b v →
    est .less v + est .equal v + est .greater v = 1

/--
Without roundings: a histogram to which values of its domain were added has estimates for all
supported comparisons, and these are those of a distribution.
-/
theorem estimates_distributed {buckets low high : Int} {values : List Int}
    (hBuckets : 1 ≤ buckets) (hSome : values ≠ [])
    (hValues : ∀ v ∈ values, low ≤ v ∧ v ≤ high) :
    ∃ (start h : Histogram Unrounded) (est : Comparison → Int → Rat),
      create buckets low high = .ok start ∧ start.addAll values = (h, .ok ()) ∧
      h.Estimates est ∧ h.Distributed est := by
  obtain ⟨start, h, hCreate, hAdded, hFilled⟩ := exists_filled .exact hBuckets hSome hValues
  have hTotal := hFilled.total_ne_zero hSome
  have hAbove := above_eq hFilled hTotal
  refine ⟨start, h, h.estimated, hCreate, hAdded, estimate_eq hTotal, {
    less_greaterEqual := fun v => ?_
    lessEqual_greater := fun v => ?_
    equal_notEqual := fun v => ?_
    less_equal_greater := fun v b hLow hHigh hSpans => ?_ }⟩
  · show h.below v + h.above v = 1
    rw [hAbove, add_sub_cancel]
  · show h.below (v + 1) + h.above (v + 1) = 1
    rw [hAbove, add_sub_cancel]
  · show h.equalTo v + (1 - h.equalTo v) = 1
    rw [add_sub_cancel]
  · obtain ⟨hb, left, right, hLeft, hRight, hFrom, hTo⟩ := hSpans
    cases hLeft
    cases hRight
    show h.below v + h.equalTo v + h.above (v + 1) = 1
    rw [hAbove, ← below_succ hFilled hTotal hLow hHigh hb hFrom hTo, add_sub_cancel]

/-- The statement for buckets of ten thirds, of which the second one holds the interval of five. -/
theorem estimates_distributed_thirds :
    ∃ (start h : Histogram Unrounded) (est : Comparison → Int → Rat),
      create 3 0 9 = .ok start ∧ start.addAll [0, 3, 4, 9] = (h, .ok ()) ∧
      h.Estimates est ∧ h.Distributed est ∧ h.Spans 1 5 := by
  have hBuckets : (1 : Int) ≤ 3 := by decide
  have hValues : ∀ v ∈ ([0, 3, 4, 9] : List Int), 0 ≤ v ∧ v ≤ 9 := by decide
  obtain ⟨start, h, est, hCreate, hAdded, hEstimates, hDistributed⟩ :=
    estimates_distributed hBuckets (List.cons_ne_nil _ _) hValues
  refine ⟨start, h, est, hCreate, hAdded, hEstimates, hDistributed, ?_⟩
  have hFrame := (tally_of_addAll hCreate hAdded).frame
  obtain ⟨-, -, width, hWidth, hNew⟩ := create_eq_ok hCreate
  have hValue : h.width.value = 10 / 3 := by
    cases hWidth
    rw [hFrame.width, hNew]
    norm_num
  have hLow : h.low = 0 := by rw [hFrame.low, hNew]
  refine ⟨?_, _, _, h.edge_eq 1, h.edge_eq 2, ?_, ?_⟩
  · have hCount := (bucketCount_of_create hCreate).1
    rw [hFrame.bucketCount]
    omega
  · norm_num [hValue, hLow]
  · norm_num [hValue, hLow]

end JoinPlanner.Histogram
