import JoinPlanner.Proofs.Histogram.Counts
import JoinPlanner.Proofs.Number.Rounded
import Mathlib.Data.Int.ConditionallyCompleteOrder

/-!
# JoinPlanner — estimates in rationals

In rationals no number is too large, so every value of the domain has a bucket and every
supported comparison an estimate. This is what they are, rounding by rounding.

* `bucketAt`, `locate_eq_ok_iff_bucketAt` — the bucket of a value.
* `computed`, `estimate_of_total` — which computation gives the estimate of a comparison.
* `estimated`, `estimate_eq` — the estimate of a comparison.
* `Estimates`     — a function that gives all estimates of a histogram.
* `Filled`        — what is known of a histogram once values have been added to it.
* `filled_of_addAll` — all of it holds after additions that succeed.
* `bucketAt_lt`, `bucketAt_mono` — buckets are in range, and those of larger values come later.
-/

namespace JoinPlanner

theorem Number.lt_whole {α : Type} [Arithmetic α] (m n : Int) :
    (Number.lt (.whole m : Number α) (.whole n)) = decide (m < n) := by
  rw [Bool.eq_iff_iff]
  simp [Number.lt, Number.compare?, compare_lt_iff_lt]

theorem Number.le_whole {α : Type} [Arithmetic α] (m n : Int) :
    (Number.le (.whole m : Number α) (.whole n)) = decide (m ≤ n) := by
  rw [Bool.eq_iff_iff]
  simp [Number.le, Number.compare?, compare_lt_iff_lt, Int.le_iff_lt_or_eq]

namespace Histogram

open Outcome

variable {ρ : Rounding} {h start : Histogram (Rounded ρ)} {buckets low high v : Int} {i : Nat}
  {values : List Int}

-- ---------------------------------------------------------------------------
-- Buckets
-- ---------------------------------------------------------------------------

/-- The bucket of a value of the domain. -/
def bucketAt (h : Histogram (Rounded ρ)) (v : Int) : Nat :=
  (min ⌊ρ (ρ (v - h.low : Int) / h.width.value)⌋ (h.bucketCount - 1)).toNat

/-- The lower edge of a bucket. -/
def edgeAt (h : Histogram (Rounded ρ)) (b : Nat) : Rat := ρ (ρ h.low + ρ (ρ b * h.width.value))

theorem bucketIndex_whole (h : Histogram (Rounded ρ)) (v : Int) :
    h.bucketIndex (.whole v) = .ok (h.bucketAt v) := rfl

theorem edge_eq (h : Histogram (Rounded ρ)) (b : Nat) : h.edge b = .ok ⟨h.edgeAt b⟩ := rfl

/-- Exactly the values of the domain have a bucket. -/
theorem locate_eq_ok_iff_bucketAt :
    h.locate v = .ok i ↔ (h.low ≤ v ∧ v ≤ h.high) ∧ h.bucketAt v = i := by
  rw [locate]
  by_cases hOut : v < h.low ∨ h.high < v
  · rw [if_pos hOut]
    constructor
    · intro hError
      cases hError
    · rintro ⟨hDomain, -⟩
      omega
  · rw [if_neg hOut, bucketIndex_whole]
    constructor
    · intro hOk
      cases hOk
      exact ⟨by omega, rfl⟩
    · rintro ⟨-, rfl⟩
      rfl

-- ---------------------------------------------------------------------------
-- Fractions
-- ---------------------------------------------------------------------------

/-- A fraction that is cut off at zero and one. -/
def cut (q : Rat) : Rat := min (max q 0) 1

theorem cut_nonneg (q : Rat) : 0 ≤ cut q := le_min (le_max_right q 0) zero_le_one

theorem cut_le_one (q : Rat) : cut q ≤ 1 := min_le_right _ _

theorem cut_mono : Monotone cut := fun _ _ hLe => min_le_min (max_le_max hLe le_rfl) le_rfl

theorem clamp_eq (x : Rounded ρ) : clamp x = ⟨cut x.value⟩ := by
  have hLess : ∀ y z : Rounded ρ,
      (Arithmetic.compare? y z == some .lt) = decide (y.value < z.value) := by
    intro y z
    rw [Bool.eq_iff_iff]
    show (some (compare y.value z.value) == some .lt) = true ↔ _
    simp [compare_lt_iff_lt]
  have hMore : ∀ y z : Rounded ρ,
      (Arithmetic.compare? y z == some .gt) = decide (z.value < y.value) := by
    intro y z
    rw [Bool.eq_iff_iff]
    show (some (compare y.value z.value) == some .gt) = true ↔ _
    simp [compare_gt_iff_gt]
  have hZero : (Arithmetic.zero : Rounded ρ).value = 0 := rfl
  have hOne : (Arithmetic.one : Rounded ρ).value = 1 := rfl
  ext
  simp only [clamp, hLess, hMore, decide_eq_true_eq, cut]
  split_ifs with hNeg hBig hBig
  all_goals simp only [hZero, hOne] at *
  · norm_num at hBig
  · rw [max_eq_right hNeg.le, min_eq_left zero_le_one]
  · rw [max_eq_left (not_lt.mp hNeg), min_eq_right hBig.le]
  · rw [max_eq_left (not_lt.mp hNeg), min_eq_left (not_lt.mp hBig)]

/-- A share of the values of a bucket together with those of whole buckets. -/
def matchedAt (h : Histogram (Rounded ρ)) (b : Nat) (share : Rat) (whole : Nat) : Rat :=
  ρ (ρ (share * ρ (h.countOf b)) + ρ whole)

/-- These values as a fraction of all values. -/
def fractionAt (h : Histogram (Rounded ρ)) (b : Nat) (share : Rat) (whole : Nat) : Rat :=
  ρ (h.matchedAt b share whole / ρ h.total)

theorem partialFraction_eq (h : Histogram (Rounded ρ)) (b : Nat) (part : Rounded ρ)
    (whole : Nat) : h.partialFraction b part whole =
      .ok ⟨h.fractionAt b (cut (ρ (part.value / h.width.value))) whole⟩ := by
  rw [partialFraction, clamp_eq]
  rfl

/-- The share of its bucket that lies below a value. -/
def shareBelow (h : Histogram (Rounded ρ)) (v : Int) : Rat :=
  cut (ρ (ρ (ρ v - h.edgeAt (h.bucketAt v)) / h.width.value))

/-- The share of its bucket that does not lie below a value. -/
def shareFrom (h : Histogram (Rounded ρ)) (v : Int) : Rat :=
  cut (ρ (ρ (h.edgeAt (h.bucketAt v + 1) - ρ v) / h.width.value))

/-- The estimated fraction of values below a boundary. -/
def below (h : Histogram (Rounded ρ)) (v : Int) : Rat :=
  if v ≤ h.low then 0
  else if h.high < v then 1
  else h.fractionAt (h.bucketAt v) (h.shareBelow v) (h.countBelow (h.bucketAt v))

/-- The estimated fraction of values at a boundary or above. -/
def above (h : Histogram (Rounded ρ)) (v : Int) : Rat :=
  if v ≤ h.low then 1
  else if h.high < v then 0
  else h.fractionAt (h.bucketAt v) (h.shareFrom v) (h.countAbove (h.bucketAt v))

/-- The estimated fraction of values equal to the given one. -/
def equalTo (h : Histogram (Rounded ρ)) (v : Int) : Rat :=
  if v < h.low ∨ h.high < v then 0
  else ρ (ρ (ρ (h.countOf (h.bucketAt v)) / h.width.value) / ρ h.total)

theorem fractionBelow_whole (h : Histogram (Rounded ρ)) (v : Int) :
    h.fractionBelow (.whole v) = .ok ⟨h.below v⟩ := by
  rw [fractionBelow, Number.le_whole, Number.lt_whole, below]
  by_cases hLow : v ≤ h.low
  · rw [if_pos (decide_eq_true hLow), if_pos hLow]
    rfl
  rw [if_neg (by simpa using hLow), if_neg hLow]
  by_cases hHigh : h.high < v
  · rw [if_pos (decide_eq_true hHigh), if_pos hHigh]
    rfl
  rw [if_neg (by simpa using hHigh), if_neg hHigh]
  refine bind_eq_ok.mpr ⟨_, h.bucketIndex_whole v, bind_eq_ok.mpr ⟨_, h.edge_eq _, ?_⟩⟩
  refine bind_eq_ok.mpr ⟨.real ⟨ρ (ρ v - h.edgeAt (h.bucketAt v))⟩, rfl, ?_⟩
  exact bind_eq_ok.mpr ⟨_, rfl, h.partialFraction_eq _ _ _⟩

theorem fractionFrom_whole (h : Histogram (Rounded ρ)) (v : Int) :
    h.fractionFrom (.whole v) = .ok ⟨h.above v⟩ := by
  rw [fractionFrom, Number.le_whole, Number.lt_whole, above]
  by_cases hLow : v ≤ h.low
  · rw [if_pos (decide_eq_true hLow), if_pos hLow]
    rfl
  rw [if_neg (by simpa using hLow), if_neg hLow]
  by_cases hHigh : h.high < v
  · rw [if_pos (decide_eq_true hHigh), if_pos hHigh]
    rfl
  rw [if_neg (by simpa using hHigh), if_neg hHigh]
  refine bind_eq_ok.mpr ⟨_, h.bucketIndex_whole v, bind_eq_ok.mpr ⟨_, h.edge_eq _, ?_⟩⟩
  refine bind_eq_ok.mpr ⟨.real ⟨ρ (h.edgeAt (h.bucketAt v + 1) - ρ v)⟩, rfl, ?_⟩
  exact bind_eq_ok.mpr ⟨_, rfl, h.partialFraction_eq _ _ _⟩

theorem equalFraction_whole (h : Histogram (Rounded ρ)) (v : Int) :
    h.equalFraction (.whole v) = .ok ⟨h.equalTo v⟩ := by
  rw [equalFraction, Number.lt_whole, Number.lt_whole, equalTo]
  by_cases hOut : v < h.low ∨ h.high < v
  · rw [if_pos (by simpa using hOut), if_pos hOut]
    rfl
  · rw [if_neg (by simpa using hOut), if_neg hOut]
    rfl

-- ---------------------------------------------------------------------------
-- Estimates
-- ---------------------------------------------------------------------------

/-- What the estimate of a supported comparison is computed from. -/
def computed {α : Type} [Arithmetic α] (h : Histogram α) : Comparison → Int → Except NumberError α
  | .equal, v => h.equalFraction (.whole v)
  | .notEqual, v => (h.equalFraction (.whole v)).map (Arithmetic.sub Arithmetic.one)
  | .less, v => h.fractionBelow (.whole v)
  | .lessEqual, v => h.fractionBelow (.whole (v + 1))
  | .greater, v => h.fractionFrom (.whole (v + 1))
  | .greaterEqual, v => h.fractionFrom (.whole v)
  | .like, _ => .ok Arithmetic.zero

theorem estimate_of_total {α : Type} [Arithmetic α] {h : Histogram α} {op : Comparison}
    (hOp : op ≠ .like) (hTotal : h.total ≠ 0) (v : Int) :
    h.estimate op (.whole v) = ofNumber (h.computed op v) := by
  unfold estimate
  rw [if_neg hOp, if_neg hTotal]
  cases op with
  | like => exact absurd rfl hOp
  | notEqual =>
    show (ofNumber (h.equalFraction (.whole v)) >>= fun x => _) = ofNumber (Except.map _ _)
    cases h.equalFraction (.whole v) <;> rfl
  | equal | less | lessEqual | greater | greaterEqual => rfl

/-- The estimate of a supported comparison. -/
def estimated (h : Histogram (Rounded ρ)) : Comparison → Int → Rat
  | .equal, v => h.equalTo v
  | .notEqual, v => ρ (1 - h.equalTo v)
  | .less, v => h.below v
  | .lessEqual, v => h.below (v + 1)
  | .greater, v => h.above (v + 1)
  | .greaterEqual, v => h.above v
  | .like, _ => 0

/-- A function that gives the estimates of all supported comparisons. -/
def Estimates (h : Histogram (Rounded ρ)) (est : Comparison → Int → Rat) : Prop :=
  ∀ op v, op ≠ .like → h.estimate op (.whole v) = .ok ⟨est op v⟩

/-- Every supported comparison has an estimate, if there are values. -/
theorem estimate_eq (hTotal : h.total ≠ 0) : h.Estimates h.estimated := by
  intro op v hOp
  rw [estimate_of_total hOp hTotal]
  cases op with
  | like => exact absurd rfl hOp
  | equal => exact congrArg ofNumber (h.equalFraction_whole v)
  | notEqual =>
    rw [computed, equalFraction_whole]
    rfl
  | less => exact congrArg ofNumber (h.fractionBelow_whole v)
  | lessEqual => exact congrArg ofNumber (h.fractionBelow_whole (v + 1))
  | greater => exact congrArg ofNumber (h.fractionFrom_whole (v + 1))
  | greaterEqual => exact congrArg ofNumber (h.fractionFrom_whole v)

-- ---------------------------------------------------------------------------
-- Filled histograms
-- ---------------------------------------------------------------------------

/-- What is known of a histogram once values have been added to it. -/
structure Filled (h : Histogram (Rounded ρ)) (values : List Int) : Prop where
  domain : h.low ≤ h.high
  bucket : 0 < h.bucketCount
  width : h.width.value = ρ ((h.high - h.low + 1 : Int) / h.bucketCount)
  one_le_width : 1 ≤ h.width.value
  total : h.total = values.length
  sum : h.counts.toList.sum = h.total
  mem : ∀ v ∈ values, h.low ≤ v ∧ v ≤ h.high
  count : ∀ b, b < h.bucketCount → h.countOf b = values.countP fun v => h.bucketAt v == b
  countBelow : ∀ b, b ≤ h.bucketCount →
    h.countBelow b = values.countP fun v => decide (h.bucketAt v < b)

/-- All of it holds after additions that succeed. -/
theorem filled_of_addAll (hCreate : create buckets low high = .ok start)
    (hAdded : start.addAll values = (h, .ok ())) : h.Filled values := by
  have hTally := tally_of_addAll hCreate hAdded
  have hFrame := hTally.frame
  obtain ⟨hCount, hPos⟩ := bucketCount_of_create hCreate
  obtain ⟨hDomain, -, width, hWidth, hNew⟩ := create_eq_ok hCreate
  have hMem : ∀ v ∈ values, h.low ≤ v ∧ v ≤ h.high := by
    intro v hv
    obtain ⟨i, hLocate⟩ := hTally.located v hv
    rw [hFrame.low, hFrame.high]
    exact (locate_eq_ok_iff_bucketAt.mp hLocate).1
  have hBuckets : ∀ v ∈ values, (start.locate v).toOption = some (h.bucketAt v) := by
    intro v hv
    rw [← hFrame.locate_eq, locate_eq_ok_iff_bucketAt.mpr ⟨hMem v hv, rfl⟩]
    rfl
  have hQuotient : h.width.value = ρ ((h.high - h.low + 1 : Int) / h.bucketCount) := by
    cases hWidth
    rw [hFrame.width, hFrame.low, hFrame.high, hFrame.bucketCount, ← Int.cast_natCast, hCount,
      hNew]
  refine {
    domain := ?_
    bucket := by rwa [hFrame.bucketCount]
    width := hQuotient
    one_le_width := ?_
    total := hTally.total
    sum := hTally.sum
    mem := hMem
    count := fun b hb => ?_
    countBelow := fun b hb => ?_ }
  · rw [hFrame.low, hFrame.high, hNew]
    exact hDomain
  · rw [hQuotient]
    refine ρ.one_le ((one_le_div ?_).mpr ?_)
    · rw [hFrame.bucketCount]
      exact_mod_cast hPos
    · rw [hFrame.low, hFrame.high, hFrame.bucketCount, hNew]
      rw [hNew] at hCount
      have hLe := min_le_right buckets (high - low + 1)
      rw [← hCount] at hLe
      exact_mod_cast hLe
  · rw [hTally.countOf_eq hb]
    refine List.countP_congr fun v hv => ?_
    simp [hBuckets v hv]
  · rw [hTally.countBelow_eq hb]
    refine List.countP_congr fun v hv => ?_
    simp [hBuckets v hv]

theorem Filled.total_ne_zero (hFilled : h.Filled values) (hSome : values ≠ []) : h.total ≠ 0 := by
  rw [hFilled.total]
  exact fun hZero => hSome (List.length_eq_zero_iff.mp hZero)

/-- Any values of a domain can be added to a new histogram over it. -/
theorem exists_filled (ρ : Rounding) (hBuckets : 1 ≤ buckets) (hSome : values ≠ [])
    (hValues : ∀ v ∈ values, low ≤ v ∧ v ≤ high) :
    ∃ start h : Histogram (Rounded ρ), create buckets low high = .ok start ∧
      start.addAll values = (h, .ok ()) ∧ h.Filled values := by
  obtain ⟨v, hv⟩ := List.exists_mem_of_ne_nil values hSome
  have hDomain := hValues v hv
  obtain ⟨start, hCreate⟩ :
      ∃ start : Histogram (Rounded ρ), create buckets low high = .ok start := by
    rw [create, if_neg (by omega), if_neg (by omega)]
    exact ⟨_, rfl⟩
  have hAdded : start.addAll values = ((start.addAll values).1, .ok ()) := by
    refine Prod.ext rfl (addAll_eq_ok_iff.mpr fun w hw => ⟨start.bucketAt w, ?_⟩)
    obtain ⟨-, -, width, -, hNew⟩ := create_eq_ok hCreate
    refine locate_eq_ok_iff_bucketAt.mpr ⟨?_, rfl⟩
    rw [hNew]
    exact hValues w hw
  exact ⟨start, _, hCreate, hAdded, filled_of_addAll hCreate hAdded⟩

-- ---------------------------------------------------------------------------
-- The order of buckets
-- ---------------------------------------------------------------------------

theorem bucketAt_lt (hPos : 0 < h.bucketCount) (v : Int) : h.bucketAt v < h.bucketCount := by
  unfold bucketAt
  omega

/-- The buckets of larger values come later. -/
theorem bucketAt_mono (hWidth : 1 ≤ h.width.value) : Monotone h.bucketAt := by
  intro v w hLe
  have hOffset : ρ (v - h.low : Int) ≤ ρ (w - h.low : Int) :=
    ρ.mono (Int.cast_le.mpr (Int.sub_le_sub_right hLe h.low))
  have hFloor : ⌊ρ (ρ (v - h.low : Int) / h.width.value)⌋ ≤
      ⌊ρ (ρ (w - h.low : Int) / h.width.value)⌋ :=
    Int.floor_mono (ρ.mono (div_le_div_of_nonneg_right hOffset (zero_le_one.trans hWidth)))
  unfold bucketAt
  omega

end Histogram

end JoinPlanner
