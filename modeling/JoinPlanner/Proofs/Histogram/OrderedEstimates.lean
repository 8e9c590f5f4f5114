import JoinPlanner.Proofs.Histogram.Estimates

/-!
# JoinPlanner — the order of estimates

However operations are rounded, as long as the order is kept: an estimate is a fraction, and of
larger values no less is estimated to lie below, and no more above. A rounding may put a value and
the edges of its bucket at odds. The share of the bucket is cut off at zero and one then, so that
a bucket never counts for less than nothing or for more than its values; and between different
buckets the whole values of the ones before and after decide.

* `le_matchedAt`, `matchedAt_le` — a share of a bucket counts for no more than the bucket.
* `fractionAt_mono`, `fractionAt_le_of_whole` — estimates in one bucket, and in two of them.
* `below_mono`, `above_anti` — the estimates of both directions.
* `OrderedEstimates`, `estimates_ordered` — the statement about all comparisons.
-/

namespace JoinPlanner.Histogram

variable {ρ : Rounding} {h : Histogram (Rounded ρ)} {a b whole : Nat} {share : Rat}
  {values : List Int}

-- ---------------------------------------------------------------------------
-- Shares of buckets
-- ---------------------------------------------------------------------------

/-- The whole buckets count in full. -/
theorem le_matchedAt (hFits : h.countOf b + whole ≤ wholeLimit) (hShare : 0 ≤ share) :
    whole ≤ h.matchedAt b share whole := by
  unfold matchedAt
  rw [ρ.nat (n := h.countOf b) (by omega), ρ.nat (n := whole) (by omega)]
  refine ρ.nat_le (by omega) (le_add_of_nonneg_left (ρ.nonneg ?_))
  positivity

/-- A share of a bucket counts for no more than all of its values. -/
theorem matchedAt_le (hFits : h.countOf b + whole ≤ wholeLimit) (hShare : share ≤ 1) :
    h.matchedAt b share whole ≤ (h.countOf b + whole : Nat) := by
  unfold matchedAt
  rw [ρ.nat (n := h.countOf b) (by omega), ρ.nat (n := whole) (by omega)]
  refine ρ.le_nat hFits ?_
  rw [Nat.cast_add]
  refine add_le_add_left (ρ.le_nat (by omega) ?_) _
  exact mul_le_of_le_one_left (Nat.cast_nonneg _) hShare

/-- A larger share counts for no less. -/
theorem matchedAt_mono (hFits : h.countOf b ≤ wholeLimit) :
    Monotone fun share => h.matchedAt b share whole := by
  intro share share' hLe
  unfold matchedAt
  rw [ρ.nat hFits]
  refine ρ.mono (add_le_add_left (ρ.mono ?_) _)
  exact mul_le_mul_of_nonneg_right hLe (Nat.cast_nonneg _)

/-- A share of a bucket with values of other buckets is a fraction of all values. -/
theorem fractionAt_mem (hTotal : h.total ≤ wholeLimit) (hFits : h.countOf b + whole ≤ h.total)
    (hNonneg : 0 ≤ share) (hOne : share ≤ 1) :
    0 ≤ h.fractionAt b share whole ∧ h.fractionAt b share whole ≤ 1 := by
  have hMatched := le_matchedAt (hFits.trans hTotal) hNonneg
  have hMost := matchedAt_le (hFits.trans hTotal) hOne
  have hAll : (h.countOf b + whole : Nat) ≤ (h.total : Rat) := Nat.cast_le.mpr hFits
  unfold fractionAt
  rw [ρ.nat hTotal]
  constructor
  · exact ρ.nonneg (div_nonneg ((Nat.cast_nonneg whole).trans hMatched) (Nat.cast_nonneg _))
  · exact ρ.le_one (div_le_one_of_le₀ (hMost.trans hAll) (Nat.cast_nonneg _))

/-- In one bucket the shares decide. -/
theorem fractionAt_mono (hFits : h.countOf b ≤ wholeLimit) :
    Monotone fun share => h.fractionAt b share whole := by
  intro share share' hLe
  unfold fractionAt
  refine ρ.mono (div_le_div_of_nonneg_right (matchedAt_mono hFits hLe) (ρ.nonneg ?_))
  positivity

/-- Between two buckets those values decide that count in full for the second one. -/
theorem fractionAt_le_of_whole {share' : Rat} {whole' : Nat} (hTotal : h.total ≤ wholeLimit)
    (hWhole : h.countOf a + whole ≤ whole') (hFits : h.countOf b + whole' ≤ h.total)
    (hOne : share ≤ 1) (hNonneg : 0 ≤ share') :
    h.fractionAt a share whole ≤ h.fractionAt b share' whole' := by
  have hMatched : h.matchedAt a share whole ≤ h.matchedAt b share' whole' :=
    calc h.matchedAt a share whole ≤ (h.countOf a + whole : Nat) :=
          matchedAt_le (by omega) hOne
      _ ≤ whole' := Nat.cast_le.mpr hWhole
      _ ≤ h.matchedAt b share' whole' := le_matchedAt (hFits.trans hTotal) hNonneg
  unfold fractionAt
  refine ρ.mono (div_le_div_of_nonneg_right hMatched (ρ.nonneg ?_))
  positivity

-- ---------------------------------------------------------------------------
-- Both directions
-- ---------------------------------------------------------------------------

/-- The values of a bucket and of those before it. -/
theorem Filled.countBelow_fits (hFilled : h.Filled values) (b : Nat) :
    h.countOf b + h.countBelow b ≤ h.total := by
  have hAll := countBelow_add_countAbove hFilled.sum b
  omega

/-- The values of a bucket and of those after it. -/
theorem Filled.countAbove_fits (hFilled : h.Filled values) (b : Nat) :
    h.countOf b + h.countAbove b ≤ h.total := by
  have hAll := countBelow_add_countAbove hFilled.sum b
  omega

variable (hFilled : h.Filled values) (hTotal : h.total ≤ wholeLimit)

include hFilled hTotal

theorem below_mem (v : Int) : 0 ≤ h.below v ∧ h.below v ≤ 1 := by
  unfold below
  split_ifs
  · exact ⟨le_rfl, zero_le_one⟩
  · exact ⟨zero_le_one, le_rfl⟩
  · exact fractionAt_mem hTotal (hFilled.countBelow_fits _) (cut_nonneg _) (cut_le_one _)

theorem above_mem (v : Int) : 0 ≤ h.above v ∧ h.above v ≤ 1 := by
  unfold above
  split_ifs
  · exact ⟨zero_le_one, le_rfl⟩
  · exact ⟨le_rfl, zero_le_one⟩
  · exact fractionAt_mem hTotal (hFilled.countAbove_fits _) (cut_nonneg _) (cut_le_one _)

theorem equalTo_mem (v : Int) : 0 ≤ h.equalTo v ∧ h.equalTo v ≤ 1 := by
  have hFits : h.countOf (h.bucketAt v) ≤ h.total := by
    have hBoth := hFilled.countBelow_fits (h.bucketAt v)
    omega
  have hWidth := hFilled.one_le_width
  unfold equalTo
  split_ifs
  · exact ⟨le_rfl, zero_le_one⟩
  rw [ρ.nat hTotal, ρ.nat (hFits.trans hTotal)]
  have hPart : 0 ≤ ρ (h.countOf (h.bucketAt v) / h.width.value) :=
    ρ.nonneg (div_nonneg (Nat.cast_nonneg _) (zero_le_one.trans hWidth))
  have hCount : ρ (h.countOf (h.bucketAt v) / h.width.value) ≤ h.countOf (h.bucketAt v) :=
    ρ.le_nat (hFits.trans hTotal) (div_le_self (Nat.cast_nonneg _) hWidth)
  constructor
  · exact ρ.nonneg (div_nonneg hPart (Nat.cast_nonneg _))
  · refine ρ.le_one (div_le_one_of_le₀ (hCount.trans ?_) (Nat.cast_nonneg _))
    exact Nat.cast_le.mpr hFits

/-- Below a larger value no less is estimated to lie. -/
theorem below_mono : Monotone h.below := by
  intro v w hLe
  by_cases hLow : v ≤ h.low
  · have hZero : h.below v = 0 := by rw [below, if_pos hLow]
    rw [hZero]
    exact (below_mem hFilled hTotal w).1
  by_cases hHigh : h.high < w
  · have hOne : h.below w = 1 := by rw [below, if_neg (by omega), if_pos hHigh]
    rw [hOne]
    exact (below_mem hFilled hTotal v).2
  rw [below, if_neg hLow, if_neg (by omega), below, if_neg (by omega), if_neg hHigh]
  have hFits := hFilled.countBelow_fits (h.bucketAt w)
  rcases Nat.eq_or_lt_of_le (bucketAt_mono hFilled.one_le_width hLe) with hSame | hLess
  · have hShare : h.shareBelow v ≤ h.shareBelow w := by
      unfold shareBelow
      rw [hSame]
      refine cut_mono (ρ.mono (div_le_div_of_nonneg_right (ρ.mono ?_) ?_))
      · exact sub_le_sub_right (ρ.mono (Int.cast_le.mpr hLe)) _
      · exact zero_le_one.trans hFilled.one_le_width
    rw [hSame]
    exact fractionAt_mono (by omega) hShare
  · have hWhole : h.countOf (h.bucketAt v) + h.countBelow (h.bucketAt v) ≤
        h.countBelow (h.bucketAt w) := by
      rw [Nat.add_comm, ← countBelow_succ]
      exact countBelow_mono hLess
    exact fractionAt_le_of_whole hTotal hWhole hFits (cut_le_one _) (cut_nonneg _)

/-- Above a larger value no more is estimated to lie. -/
theorem above_anti : Antitone h.above := by
  intro v w hLe
  by_cases hLow : v ≤ h.low
  · have hOne : h.above v = 1 := by rw [above, if_pos hLow]
    rw [hOne]
    exact (above_mem hFilled hTotal w).2
  by_cases hHigh : h.high < w
  · have hZero : h.above w = 0 := by rw [above, if_neg (by omega), if_pos hHigh]
    rw [hZero]
    exact (above_mem hFilled hTotal v).1
  rw [above, if_neg (by omega), if_neg hHigh, above, if_neg hLow, if_neg (by omega)]
  have hFits := hFilled.countAbove_fits (h.bucketAt v)
  rcases Nat.eq_or_lt_of_le (bucketAt_mono hFilled.one_le_width hLe) with hSame | hLess
  · have hShare : h.shareFrom w ≤ h.shareFrom v := by
      unfold shareFrom
      rw [hSame]
      refine cut_mono (ρ.mono (div_le_div_of_nonneg_right (ρ.mono ?_) ?_))
      · exact sub_le_sub_left (ρ.mono (Int.cast_le.mpr hLe)) _
      · exact zero_le_one.trans hFilled.one_le_width
    rw [hSame] at hFits ⊢
    exact fractionAt_mono (by omega) hShare
  · have hWhole : h.countOf (h.bucketAt w) + h.countAbove (h.bucketAt w) ≤
        h.countAbove (h.bucketAt v) := by
      have hBefore := countBelow_mono (h := h) (Nat.succ_le_of_lt hLess)
      rw [Nat.succ_eq_add_one, countBelow_succ] at hBefore
      have hFirst := countBelow_add_countAbove hFilled.sum (h.bucketAt v)
      have hSecond := countBelow_add_countAbove hFilled.sum (h.bucketAt w)
      omega
    exact fractionAt_le_of_whole hTotal hWhole hFits (cut_le_one _) (cut_nonneg _)

omit hFilled hTotal

-- ---------------------------------------------------------------------------
-- The statement
-- ---------------------------------------------------------------------------

/-- Estimates are fractions, in an order that fits what they are estimates of. -/
structure OrderedEstimates (est : Comparison → Int → Rat) : Prop where
  unit : ∀ op v, op ≠ .like → 0 ≤ est op v ∧ est op v ≤ 1
  less : Monotone (est .less)
  lessEqual : Monotone (est .lessEqual)
  greater : Antitone (est .greater)
  greaterEqual : Antitone (est .greaterEqual)
  less_le_lessEqual : ∀ v, est .less v ≤ est .lessEqual v
  greater_le_greaterEqual : ∀ v, est .greater v ≤ est .greaterEqual v

/--
Under every rounding: a histogram to which up to `2 ^ 53` values of its domain were added has
estimates for all supported comparisons, and these are fractions and in order.
-/
theorem estimates_ordered (ρ : Rounding) {buckets low high : Int} {values : List Int}
    (hBuckets : 1 ≤ buckets) (hSome : values ≠ []) (hMany : values.length ≤ wholeLimit)
    (hValues : ∀ v ∈ values, low ≤ v ∧ v ≤ high) :
    ∃ (start h : Histogram (Rounded ρ)) (est : Comparison → Int → Rat),
      create buckets low high = .ok start ∧ start.addAll values = (h, .ok ()) ∧
      h.Estimates est ∧ OrderedEstimates est := by
  obtain ⟨start, h, hCreate, hAdded, hFilled⟩ := exists_filled ρ hBuckets hSome hValues
  have hTotal : h.total ≤ wholeLimit := hFilled.total ▸ hMany
  have hBelow := below_mono hFilled hTotal
  have hAbove := above_anti hFilled hTotal
  refine ⟨start, h, h.estimated, hCreate, hAdded, estimate_eq (hFilled.total_ne_zero hSome), {
    unit := fun op v hOp => ?_
    less := hBelow
    lessEqual := fun v w hLe => hBelow (Int.add_le_add_right hLe 1)
    greater := fun v w hLe => hAbove (Int.add_le_add_right hLe 1)
    greaterEqual := hAbove
    less_le_lessEqual := fun v => hBelow (Int.le_add_one le_rfl)
    greater_le_greaterEqual := fun v => hAbove (Int.le_add_one le_rfl) }⟩
  have hEqual := equalTo_mem hFilled hTotal v
  cases op with
  | like => exact absurd rfl hOp
  | equal => exact hEqual
  | notEqual => exact ⟨ρ.nonneg (sub_nonneg.mpr hEqual.2), ρ.le_one (sub_le_self 1 hEqual.1)⟩
  | less => exact below_mem hFilled hTotal v
  | lessEqual => exact below_mem hFilled hTotal (v + 1)
  | greater => exact above_mem hFilled hTotal (v + 1)
  | greaterEqual => exact above_mem hFilled hTotal v

/-- The statement for doubles, and for seven buckets of a domain beyond their whole numbers. -/
theorem estimates_ordered_nearest :
    ∃ (start h : Histogram (Rounded .nearest)) (est : Comparison → Int → Rat),
      create 7 (-5) (10 ^ 20) = .ok start ∧
      start.addAll [-5, 2 ^ 53 + 1, 10 ^ 20] = (h, .ok ()) ∧
      h.Estimates est ∧ OrderedEstimates est :=
  estimates_ordered .nearest (by decide) (by decide) (by decide) (by decide)

end JoinPlanner.Histogram
