import JoinPlanner.Proofs.Histogram.ErrorBounds
import JoinPlanner.Proofs.Histogram.Shares
import JoinPlanner.Proofs.Histogram.Widths

/-!
# JoinPlanner — a bucket for each integer

If every integer of the domain has a bucket of its own, the counts tell all about the values.
What a bucket holds is counted for a comparison or not, as its edge and the boundary are
ordered. The edges are sums of doubles, though, and those of large integers are not where the
integers are. So an estimate of smaller or larger values is the double nearest to their
fraction, or to this fraction together with the values that are equal.

* `UnitBuckets`, `exists_unitBuckets` — what is known of the counts.
* `nearestFraction` — the double nearest to the fraction of values.
* `fractionBelow_inside`, `fractionFrom_inside` — which values are counted.
* `fractions_near`  — the true fractions, if the domain is near zero.
* `UnitEstimates`, `unitEstimates_of_create` — the statement about all comparisons.
-/

namespace JoinPlanner

open Outcome Binary64

namespace Histogram

-- ---------------------------------------------------------------------------
-- Counts
-- ---------------------------------------------------------------------------

/-- Every integer of the domain has a bucket of its own, and the counts are those of the values. -/
structure UnitBuckets (h : Histogram Binary64) (values : List Int) : Prop where
  width : h.width = one
  size : (h.bucketCount : Int) = h.high - h.low + 1
  small : h.high - h.low < wholeLimit
  within : ∀ x ∈ values, h.low ≤ x ∧ x ≤ h.high
  total : h.total = values.length
  few : values.length ≤ wholeLimit
  countOf : ∀ v, h.low ≤ v → v ≤ h.high →
    h.countOf (v - h.low).toNat = values.countP fun x => x = v
  countBelow : ∀ v, h.low ≤ v → v ≤ h.high →
    h.countBelow (v - h.low).toNat = values.countP fun x => x < v
  countAbove : ∀ v, h.low ≤ v → v ≤ h.high →
    h.countAbove (v - h.low).toNat = values.countP fun x => v < x

variable {h start : Histogram Binary64} {buckets low high v w : Int} {values : List Int}

/-- Properties that exclude each other are counted one by one. -/
theorem countP_of_or {p q r : Int → Prop} [DecidablePred p] [DecidablePred q] [DecidablePred r]
    (hEither : ∀ x, r x ↔ p x ∨ q x) (hApart : ∀ x, p x → ¬ q x) (values : List Int) :
    values.countP (fun x => r x) = values.countP (fun x => p x) + values.countP fun x => q x := by
  induction values with
  | nil => rfl
  | cons x rest ih =>
    simp only [List.countP_cons, decide_eq_true_eq, ih, hEither x]
    by_cases hp : p x
    · simp only [hp, hApart x hp, true_or, if_true, if_false]
      omega
    · simp only [hp, false_or, if_false]
      omega

theorem countP_le (values : List Int) (v : Int) : values.countP (fun x => x ≤ v) =
    values.countP (fun x => x = v) + values.countP (fun x => x < v) :=
  countP_of_or (fun x => by omega) (fun x => by omega) values

theorem countP_ge (values : List Int) (v : Int) : values.countP (fun x => v ≤ x) =
    values.countP (fun x => x = v) + values.countP (fun x => v < x) :=
  countP_of_or (fun x => by omega) (fun x => by omega) values

/-- A value is smaller than another one, equal to it, or larger. -/
theorem countP_add_countP_add_countP (values : List Int) (v : Int) :
    values.countP (fun x => x < v) + values.countP (fun x => x = v) +
      values.countP (fun x => v < x) = values.length := by
  have hAll : values.countP (fun _ => True) = values.length :=
    List.countP_eq_length.mpr fun x _ => decide_eq_true trivial
  have hSplit := countP_of_or (p := fun x => x < v) (q := fun x => v ≤ x) (r := fun _ => True)
    (fun x => iff_of_true trivial (lt_or_ge x v)) (fun x => not_le_of_gt) values
  have hFrom := countP_ge values v
  omega

/-- A value of the domain has its own bucket. -/
theorem bucketIndex_of_within (hWidth : h.width = one)
    (hSize : (h.bucketCount : Int) = h.high - h.low + 1) (hSmall : h.high - h.low < wholeLimit)
    (hDomain : h.low ≤ v ∧ v ≤ h.high) : h.bucketIndex (.whole v) = .ok (v - h.low).toNat :=
  bucketIndex_of_unit hWidth (by omega) (by omega) (by omega)

theorem locate_of_unit (hWidth : h.width = one)
    (hSize : (h.bucketCount : Int) = h.high - h.low + 1) (hSmall : h.high - h.low < wholeLimit)
    (hDomain : h.low ≤ v ∧ v ≤ h.high) : h.locate v = .ok (v - h.low).toNat := by
  rw [locate_of_domain hDomain, bucketIndex_of_within hWidth hSize hSmall hDomain]
  rfl

theorem UnitBuckets.bucketIndex_whole (hUnit : UnitBuckets h values)
    (hDomain : h.low ≤ v ∧ v ≤ h.high) : h.bucketIndex (.whole v) = .ok (v - h.low).toNat :=
  bucketIndex_of_within hUnit.width hUnit.size hUnit.small hDomain

theorem unitBuckets_of_tally (hTally : Tally start h values) (hWidth : start.width = one)
    (hSize : (start.bucketCount : Int) = start.high - start.low + 1)
    (hSmall : start.high - start.low < wholeLimit) (hFew : values.length ≤ wholeLimit)
    (hWithin : ∀ x ∈ values, start.low ≤ x ∧ x ≤ start.high) : UnitBuckets h values := by
  have hLocate : ∀ x ∈ values, start.locate x = .ok (x - start.low).toNat := fun x hx =>
    locate_of_unit hWidth hSize hSmall (hWithin x hx)
  obtain ⟨hLow, hHigh, hSameWidth, hCount⟩ := hTally.frame
  have hOf : ∀ v, start.low ≤ v → v ≤ start.high →
      h.countOf (v - start.low).toNat = values.countP fun x => x = v := by
    intro v hv hv'
    rw [hTally.countOf_eq (by omega)]
    refine List.countP_congr fun x hx => ?_
    have hx' := hWithin x hx
    rw [hLocate x hx]
    simp only [Except.toOption, beq_iff_eq, Option.some.injEq, decide_eq_true_eq]
    omega
  have hBelow : ∀ v, start.low ≤ v → v ≤ start.high →
      h.countBelow (v - start.low).toNat = values.countP fun x => x < v := by
    intro v hv hv'
    rw [hTally.countBelow_eq (by omega)]
    refine List.countP_congr fun x hx => ?_
    have hx' := hWithin x hx
    rw [hLocate x hx]
    simp only [Except.toOption, Option.any_some, decide_eq_true_eq]
    omega
  refine ⟨hSameWidth.trans hWidth, by omega, by omega, ?_, hTally.total, hFew, ?_, ?_, ?_⟩
  · rwa [hLow, hHigh]
  · rwa [hLow, hHigh]
  · rwa [hLow, hHigh]
  · rw [hLow, hHigh]
    intro v hv hv'
    have hAll := countBelow_add_countAbove hTally.sum (v - start.low).toNat
    have hSplit := countP_add_countP_add_countP values v
    have hTotal := hTally.total
    rw [hOf v hv hv', hBelow v hv hv'] at hAll
    omega

/-- Values of the domain can be added, each to a bucket of its own. -/
theorem exists_unitBuckets (hBuckets : high - low + 1 ≤ buckets) (hSmall : high - low < wholeLimit)
    (hDomain : low ≤ high) (hWithin : ∀ x ∈ values, low ≤ x ∧ x ≤ high)
    (hFew : values.length ≤ wholeLimit) :
    ∃ start h, create buckets low high = .ok start ∧ start.addAll values = (h, .ok ()) ∧
      h.low = low ∧ h.high = high ∧ UnitBuckets h values := by
  have hCreate := create_of_unit hDomain hBuckets
  generalize hNew : (⟨low, high, one, Array.replicate (high - low + 1).toNat 0, 0⟩ :
    Histogram Binary64) = start at hCreate
  have hSize : (start.bucketCount : Int) = start.high - start.low + 1 := by
    rw [← hNew, bucketCount, Array.size_replicate]
    show ((high - low + 1).toNat : Int) = high - low + 1
    omega
  have hWidth : start.width = one := hNew ▸ rfl
  have hLow : start.low = low := hNew ▸ rfl
  have hHigh : start.high = high := hNew ▸ rfl
  have hSmall' : start.high - start.low < wholeLimit := by rwa [hLow, hHigh]
  have hWithin' : ∀ x ∈ values, start.low ≤ x ∧ x ≤ start.high := by rwa [hLow, hHigh]
  have hAdded : start.addAll values = ((start.addAll values).1, .ok ()) :=
    Prod.ext rfl (addAll_eq_ok_iff.mpr fun x hx =>
      ⟨_, locate_of_unit hWidth hSize hSmall' (hWithin' x hx)⟩)
  have hTally := tally_of_addAll hCreate hAdded
  exact ⟨start, _, hCreate, hAdded, hTally.frame.low.trans hLow, hTally.frame.high.trans hHigh,
    unitBuckets_of_tally hTally hWidth hSize hSmall' hFew hWithin'⟩

-- ---------------------------------------------------------------------------
-- Fractions
-- ---------------------------------------------------------------------------

/-- The double nearest to the fraction of values for which a comparison holds. -/
def nearestFraction (values : List Int) (op : Comparison) (v : Int) : Binary64 :=
  ofQuotient false (values.countP (fun x => op.Passes x v) * unitsPerOne) values.length

theorem nearestFraction_none {op : Comparison} (h : ∀ x ∈ values, ¬ op.Passes x v) :
    nearestFraction values op v = zero := by
  have hNone : values.countP (fun x => op.Passes x v) = 0 :=
    List.countP_eq_zero.mpr fun x hx => by simpa using h x hx
  rw [nearestFraction, hNone, Nat.zero_mul, ofQuotient_zero, zero]

theorem nearestFraction_all {op : Comparison} (hSome : values ≠ [])
    (h : ∀ x ∈ values, op.Passes x v) : nearestFraction values op v = one := by
  have hAll : values.countP (fun x => op.Passes x v) = values.length :=
    List.countP_eq_length.mpr fun x hx => by simpa using h x hx
  rw [nearestFraction, hAll, ofQuotient_self (List.length_pos_iff.mpr hSome)]

namespace UnitBuckets

variable (hUnit : UnitBuckets h values) (hSome : values ≠ [])

include hUnit hSome

theorem fractionOf_whole {count : Nat} :
    h.fractionOf (.finite false (count * unitsPerOne)) =
      .ok (ofQuotient false (count * unitsPerOne) values.length) := by
  have hPos : 0 < values.length := List.length_pos_iff.mpr hSome
  refine bind_eq_ok.mpr ⟨.finite false (values.length * unitsPerOne), ?_, ?_⟩
  · rw [hUnit.total]
    exact ofInt_whole hUnit.few
  · show Except.ok (div _ _) = _
    rw [div_whole hPos]

/-- A bucket that counts in full or not at all. -/
theorem partialFraction_of_share (negative : Bool) {bucket wholeBuckets share : Nat}
    {part : Binary64} (hBucket : h.countOf bucket ≤ wholeLimit)
    (hShare : mul (clamp (div part one)) (.finite false (h.countOf bucket * unitsPerOne)) =
      .finite negative (share * unitsPerOne))
    (hSign : negative = true → share = 0) (hSum : share + wholeBuckets ≤ wholeLimit) :
    h.partialFraction bucket part wholeBuckets =
      .ok (ofQuotient false ((share + wholeBuckets) * unitsPerOne) values.length) := by
  refine bind_eq_ok.mpr ⟨_, ofInt_whole hBucket, bind_eq_ok.mpr
    ⟨_, ofInt_whole (Nat.le_trans (Nat.le_add_left _ share) hSum), ?_⟩⟩
  show h.fractionOf (Binary64.add (mul (clamp (div part h.width)) _) _) = _
  rw [hUnit.width, hShare, add_whole hSign hSum, hUnit.fractionOf_whole hSome]

/-- A bucket counts if a difference of whole doubles is positive. -/
theorem partialFraction_of_whole (bucket wholeBuckets : Nat) {x y : Binary64} (hx : Whole x)
    (hy : Whole y) (hFinite : (∃ s m, x = .finite s m) ∨ ∃ s m, y = .finite s m)
    (hSum : h.countOf bucket + wholeBuckets ≤ values.length) :
    h.partialFraction bucket (Binary64.sub x y) wholeBuckets =
      .ok (ofQuotient false (((if Smaller y x then h.countOf bucket else 0) + wholeBuckets) *
        unitsPerOne) values.length) := by
  have hFew := hUnit.few
  obtain ⟨hAll, hNone⟩ := clamp_sub hx hy hFinite
  by_cases hLess : Smaller y x
  · rw [if_pos hLess]
    refine hUnit.partialFraction_of_share hSome false (by omega) ?_ Bool.noConfusion (by omega)
    rw [hAll hLess, one_mul_whole (by omega)]
  · obtain ⟨s, hZero⟩ := hNone hLess
    rw [if_neg hLess]
    refine hUnit.partialFraction_of_share hSome s (by omega) ?_ (fun _ => rfl) (by omega)
    rw [hZero, zero_mul_whole, Nat.zero_mul]

/-- Whether a value is there is known exactly. -/
theorem equalFraction_whole (v : Int) :
    h.equalFraction (.whole v) = .ok (nearestFraction values .equal v) := by
  rw [equalFraction, Number.lt_whole, Number.lt_whole]
  by_cases hOut : v < h.low ∨ h.high < v
  · have hNone : ∀ x ∈ values, ¬ Comparison.equal.Passes x v := by
      intro x hx
      show ¬ x = v
      have hDomain := hUnit.within x hx
      omega
    rw [if_pos (by simpa using hOut), nearestFraction_none hNone]
    rfl
  · rw [if_neg (by simpa using hOut)]
    have hSize := hUnit.size
    have hSmall := hUnit.small
    have hOf := hUnit.countOf v (by omega) (by omega)
    have hFew : values.countP (fun x => x = v) ≤ wholeLimit :=
      Nat.le_trans List.countP_le_length hUnit.few
    refine bind_eq_ok.mpr ⟨_, hUnit.bucketIndex_whole (by omega), ?_⟩
    rw [hOf]
    refine bind_eq_ok.mpr ⟨_, ofInt_whole hFew, ?_⟩
    show h.fractionOf (div _ h.width) = _
    rw [hUnit.width, div_one_whole hFew, hUnit.fractionOf_whole hSome]
    rfl

-- ---------------------------------------------------------------------------
-- Boundaries
-- ---------------------------------------------------------------------------

omit hSome in
/-- An edge is an integer, though perhaps not the one that it is meant to be. -/
theorem whole_of_edge {bucket : Nat} {y : Binary64} (hBucket : bucket ≤ wholeLimit)
    (hEdge : h.edge bucket = .ok y) : Whole y := by
  rw [edge_of_unit hUnit.width hBucket] at hEdge
  cases hLow : Binary64.ofInt h.low with
  | error e =>
    rw [hLow] at hEdge
    cases hEdge
  | ok x =>
    rw [hLow] at hEdge
    cases hEdge
    obtain ⟨s, m, rfl⟩ := exists_finite_of_ofInt hLow
    cases whole_ofInt hLow with
    | finite _ hm => exact whole_add hm (Nat.dvd_mul_left _ _)

/-- At the lower end and beyond the upper one nothing is computed. -/
theorem fractionBelow_outside (hOut : w ≤ h.low ∨ h.high < w) :
    h.fractionBelow (.whole w) = .ok (nearestFraction values .less w) := by
  have hWithin := hUnit.within
  rw [fractionBelow, Number.le_whole, Number.lt_whole]
  by_cases hLow : w ≤ h.low
  · have hNone : ∀ x ∈ values, ¬ Comparison.less.Passes x w := by
      intro x hx
      show ¬ x < w
      have hDomain := hWithin x hx
      omega
    rw [if_pos (decide_eq_true hLow), nearestFraction_none hNone]
    rfl
  · have hHigh : h.high < w := by omega
    have hAll : ∀ x ∈ values, Comparison.less.Passes x w := by
      intro x hx
      show x < w
      have hDomain := hWithin x hx
      omega
    rw [if_neg (by simpa using hLow), if_pos (decide_eq_true hHigh), nearestFraction_all hSome hAll]
    rfl

theorem fractionFrom_outside (hOut : w ≤ h.low ∨ h.high < w) :
    h.fractionFrom (.whole w) = .ok (nearestFraction values .greaterEqual w) := by
  have hWithin := hUnit.within
  rw [fractionFrom, Number.le_whole, Number.lt_whole]
  by_cases hLow : w ≤ h.low
  · have hAll : ∀ x ∈ values, Comparison.greaterEqual.Passes x w := by
      intro x hx
      show w ≤ x
      have hDomain := hWithin x hx
      omega
    rw [if_pos (decide_eq_true hLow), nearestFraction_all hSome hAll]
    rfl
  · have hHigh : h.high < w := by omega
    have hNone : ∀ x ∈ values, ¬ Comparison.greaterEqual.Passes x w := by
      intro x hx
      show ¬ w ≤ x
      have hDomain := hWithin x hx
      omega
    rw [if_neg (by simpa using hLow), if_pos (decide_eq_true hHigh), nearestFraction_none hNone]
    rfl

/-- Below a boundary are the smaller values, and those in its bucket if the edge of this is below
the boundary as well. -/
theorem fractionBelow_inside {x left : Binary64} (hLow : h.low < w) (hHigh : w ≤ h.high)
    (hx : Binary64.ofInt w = .ok x) (hLeft : h.edge (w - h.low).toNat = .ok left) :
    h.fractionBelow (.whole w) =
      .ok (nearestFraction values (if Smaller left x then .lessEqual else .less) w) := by
  have hSize := hUnit.size
  have hSmall := hUnit.small
  have hOf := hUnit.countOf w (by omega) hHigh
  have hBelow := hUnit.countBelow w (by omega) hHigh
  have hTotal := countP_add_countP_add_countP values w
  have hIndex := hUnit.bucketIndex_whole ⟨hLow.le, hHigh⟩
  have hPartial := hUnit.partialFraction_of_whole hSome (w - h.low).toNat
    (h.countBelow (w - h.low).toNat) (whole_ofInt hx)
    (hUnit.whole_of_edge (by omega) hLeft) (Or.inl (exists_finite_of_ofInt hx)) (by omega)
  rw [fractionBelow, Number.le_whole, Number.lt_whole, if_neg (by simpa using hLow),
    if_neg (by simpa using hHigh)]
  refine bind_eq_ok.mpr ⟨_, hIndex, bind_eq_ok.mpr ⟨left, hLeft, bind_eq_ok.mpr
    ⟨.real (Binary64.sub x left), bind_eq_ok.mpr ⟨x, hx, rfl⟩, bind_eq_ok.mpr ⟨_, rfl, ?_⟩⟩⟩⟩
  rw [hPartial, hOf, hBelow]
  split
  · rw [← countP_le]
    rfl
  · rw [Nat.zero_add]
    rfl

/-- From a boundary on are the larger values, and those in its bucket if the upper edge of this
is above the boundary. -/
theorem fractionFrom_inside {x right : Binary64} (hLow : h.low < w) (hHigh : w ≤ h.high)
    (hx : Binary64.ofInt w = .ok x) (hRight : h.edge ((w - h.low).toNat + 1) = .ok right) :
    h.fractionFrom (.whole w) =
      .ok (nearestFraction values (if Smaller x right then .greaterEqual else .greater) w) := by
  have hSize := hUnit.size
  have hSmall := hUnit.small
  have hOf := hUnit.countOf w (by omega) hHigh
  have hAbove := hUnit.countAbove w (by omega) hHigh
  have hTotal := countP_add_countP_add_countP values w
  have hIndex := hUnit.bucketIndex_whole ⟨hLow.le, hHigh⟩
  have hPartial := hUnit.partialFraction_of_whole hSome (w - h.low).toNat
    (h.countAbove (w - h.low).toNat) (hUnit.whole_of_edge (by omega) hRight)
    (whole_ofInt hx) (Or.inr (exists_finite_of_ofInt hx)) (by omega)
  rw [fractionFrom, Number.le_whole, Number.lt_whole, if_neg (by simpa using hLow),
    if_neg (by simpa using hHigh)]
  refine bind_eq_ok.mpr ⟨_, hIndex, bind_eq_ok.mpr ⟨right, hRight, bind_eq_ok.mpr
    ⟨.real (Binary64.sub right x), bind_eq_ok.mpr ⟨x, hx, rfl⟩, bind_eq_ok.mpr ⟨_, rfl, ?_⟩⟩⟩⟩
  rw [hPartial, hOf, hAbove]
  split
  · rw [← countP_ge]
    rfl
  · rw [Nat.zero_add]
    rfl

omit hSome in
/-- Both edges of a bucket are there if the lower end is convertible. -/
theorem exists_edge (hLow : Convertible h.low) (bucket : Nat) (hBucket : bucket ≤ wholeLimit) :
    ∃ y, h.edge bucket = .ok y := by
  obtain ⟨x, hx⟩ := hLow
  rw [edge_of_unit hUnit.width hBucket, hx]
  exact ⟨_, rfl⟩

omit hSome in
/-- If the lower end or the boundary is beyond the doubles, nothing is estimated. -/
theorem fractions_tooLarge (hLow : h.low < w) (hHigh : w ≤ h.high)
    (hBeyond : ¬ Convertible h.low ∨ ¬ Convertible w) :
    h.fractionBelow (.whole w) = .error .integerTooLarge ∧
      h.fractionFrom (.whole w) = .error .integerTooLarge := by
  have hSize := hUnit.size
  have hSmall := hUnit.small
  have hIndex := hUnit.bucketIndex_whole ⟨hLow.le, hHigh⟩
  rw [fractionBelow, fractionFrom, Number.le_whole, Number.lt_whole, if_neg (by simpa using hLow),
    if_neg (by simpa using hHigh), if_neg (by simpa using hLow), if_neg (by simpa using hHigh)]
  by_cases hLowest : Convertible h.low
  · -- the edges are there, but the boundary cannot be compared with them
    have hw := ofInt_of_not_convertible (hBeyond.resolve_left (not_not.mpr hLowest))
    obtain ⟨left, hLeft⟩ := hUnit.exists_edge hLowest (w - h.low).toNat (by omega)
    obtain ⟨right, hRight⟩ := hUnit.exists_edge hLowest ((w - h.low).toNat + 1) (by omega)
    refine ⟨bind_eq_error.mpr (.inr ⟨_, hIndex, bind_eq_error.mpr (.inr ⟨left, hLeft, ?_⟩)⟩),
      bind_eq_error.mpr (.inr ⟨_, hIndex, bind_eq_error.mpr (.inr ⟨right, hRight, ?_⟩)⟩)⟩
    · exact bind_eq_error.mpr (.inl (bind_eq_error.mpr (.inl hw)))
    · exact bind_eq_error.mpr (.inl (bind_eq_error.mpr (.inl hw)))
  · have hEdge : ∀ bucket ≤ wholeLimit, h.edge bucket = .error .integerTooLarge := by
      intro bucket hBucket
      rw [edge_of_unit hUnit.width hBucket, ofInt_of_not_convertible hLowest]
      rfl
    exact ⟨bind_eq_error.mpr (.inr ⟨_, hIndex, bind_eq_error.mpr (.inl (hEdge _ (by omega)))⟩),
      bind_eq_error.mpr (.inr ⟨_, hIndex, bind_eq_error.mpr (.inl (hEdge _ (by omega)))⟩)⟩

omit hSome in
/-- Near zero the edges are where the integers are. -/
theorem edge_near (hNear : -(wholeLimit : Int) ≤ h.low) (bucket : Nat)
    (hBucket : bucket ≤ wholeLimit) (hEnd : h.low + bucket ≤ wholeLimit) :
    ∃ y, h.edge bucket = .ok y ∧ Denotes y (h.low + bucket) := by
  obtain ⟨x, hx, hDenotes⟩ := exists_ofInt_denotes (n := h.low) (by omega)
  refine ⟨Binary64.add x (finite false (bucket * unitsPerOne)), ?_, hDenotes.add ?_ (by omega)⟩
  · rw [edge_of_unit hUnit.width hBucket, hx]
    rfl
  · exact ⟨_, _, rfl, by rw [signedUnits_false, Int.natCast_mul]⟩

/-- Near zero all fractions are the true ones. -/
theorem fractions_near (hNear : -(wholeLimit : Int) ≤ h.low) (hEnd : h.high < wholeLimit)
    (w : Int) :
    h.fractionBelow (.whole w) = .ok (nearestFraction values .less w) ∧
      h.fractionFrom (.whole w) = .ok (nearestFraction values .greaterEqual w) := by
  by_cases hOut : w ≤ h.low ∨ h.high < w
  · exact ⟨hUnit.fractionBelow_outside hSome hOut, hUnit.fractionFrom_outside hSome hOut⟩
  · have hSmall := hUnit.small
    obtain ⟨x, hx, hDenotes⟩ := exists_ofInt_denotes (n := w) (by omega)
    obtain ⟨left, hLeft, hBelow⟩ :=
      hUnit.edge_near hNear (w - h.low).toNat (by omega) (by omega)
    obtain ⟨right, hRight, hAbove⟩ :=
      hUnit.edge_near hNear ((w - h.low).toNat + 1) (by omega) (by omega)
    have hNot : ¬ Smaller left x := by
      rw [smaller_of_denotes hBelow hDenotes]
      omega
    have hMore : Smaller x right := by
      rw [smaller_of_denotes hDenotes hAbove]
      omega
    constructor
    · rw [hUnit.fractionBelow_inside hSome (by omega) (by omega) hx hLeft, if_neg hNot]
    · rw [hUnit.fractionFrom_inside hSome (by omega) (by omega) hx hRight, if_pos hMore]

end UnitBuckets

-- ---------------------------------------------------------------------------
-- Estimates
-- ---------------------------------------------------------------------------

theorem nearestFraction_succ (values : List Int) (v : Int) :
    nearestFraction values .less (v + 1) = nearestFraction values .lessEqual v ∧
      nearestFraction values .greaterEqual (v + 1) = nearestFraction values .greater v := by
  have hLess : ∀ x, Comparison.less.Passes x (v + 1) ↔ Comparison.lessEqual.Passes x v :=
    fun x => Int.lt_add_one_iff
  have hMore : ∀ x, Comparison.greaterEqual.Passes x (v + 1) ↔ Comparison.greater.Passes x v :=
    fun x => Int.add_one_le_iff
  unfold nearestFraction
  simp only [hLess, hMore, and_self]

/--
The estimates of a histogram with a bucket for each integer. Inside of the domain, the doubles of
a boundary and of the edges of its bucket decide whether the values that equal the boundary count.
-/
structure UnitEstimates (values : List Int) (h : Histogram Binary64) : Prop where
  equal : ∀ v, h.estimate .equal (.whole v) = .ok (nearestFraction values .equal v)
  notEqual : ∀ v, h.estimate .notEqual (.whole v) =
    .ok (Binary64.sub one (nearestFraction values .equal v))
  lessEqual : ∀ v, h.estimate .lessEqual (.whole v) = h.estimate .less (.whole (v + 1))
  greater : ∀ v, h.estimate .greater (.whole v) = h.estimate .greaterEqual (.whole (v + 1))
  outside : ∀ v, v ≤ h.low ∨ h.high < v →
    h.estimate .less (.whole v) = .ok (nearestFraction values .less v) ∧
      h.estimate .greaterEqual (.whole v) = .ok (nearestFraction values .greaterEqual v)
  inside : ∀ v, h.low < v → v ≤ h.high → Convertible h.low → Convertible v →
    ∃ x left right, Binary64.ofInt v = .ok x ∧ h.edge (v - h.low).toNat = .ok left ∧
      h.edge ((v - h.low).toNat + 1) = .ok right ∧
      h.estimate .less (.whole v) =
        .ok (nearestFraction values (if Smaller left x then .lessEqual else .less) v) ∧
      h.estimate .greaterEqual (.whole v) =
        .ok (nearestFraction values (if Smaller x right then .greaterEqual else .greater) v)
  /-- An edge or a boundary beyond the doubles has no place. -/
  tooLarge : ∀ v, h.low < v → v ≤ h.high → ¬ Convertible h.low ∨ ¬ Convertible v →
    h.estimate .less (.whole v) = .error (.number .integerTooLarge) ∧
      h.estimate .greaterEqual (.whole v) = .error (.number .integerTooLarge)
  /-- Where integers are doubles, all comparisons are estimated exactly. -/
  near : -(wholeLimit : Int) ≤ h.low → h.high < wholeLimit → ∀ op v, op ≠ .like → op ≠ .notEqual →
    h.estimate op (.whole v) = .ok (nearestFraction values op v)

theorem unitEstimates_of_unitBuckets (hUnit : UnitBuckets h values) (hSome : values ≠ []) :
    UnitEstimates values h := by
  have hTotal : h.total ≠ 0 := by
    rw [hUnit.total]
    exact mt List.length_eq_zero_iff.mp hSome
  have hEstimate : ∀ {op : Comparison}, op ≠ .like → ∀ v,
      h.estimate op (.whole v) = ofNumber (h.computed op v) :=
    fun hOp => estimate_of_total hOp hTotal
  have hEqual : ∀ v, h.equalFraction (.whole v) = .ok (nearestFraction values .equal v) :=
    hUnit.equalFraction_whole hSome
  refine {
    equal := fun v => ?_
    notEqual := fun v => ?_
    lessEqual := fun v => ?_
    greater := fun v => ?_
    outside := fun v hOut => ?_
    inside := fun v hLow hHigh hLowest hv => ?_
    tooLarge := fun v hLow hHigh hBeyond => ?_
    near := fun hNear hEnd op v hOp hNot => ?_ }
  · rw [hEstimate (by decide), computed, hEqual]
    rfl
  · rw [hEstimate (by decide), computed, hEqual]
    rfl
  · rw [hEstimate (by decide), hEstimate (by decide)]
    rfl
  · rw [hEstimate (by decide), hEstimate (by decide)]
    rfl
  · rw [hEstimate (by decide), hEstimate (by decide), computed, computed,
      hUnit.fractionBelow_outside hSome hOut, hUnit.fractionFrom_outside hSome hOut]
    exact ⟨rfl, rfl⟩
  · obtain ⟨x, hx⟩ := hv
    have hSmall := hUnit.small
    obtain ⟨left, hLeft⟩ := hUnit.exists_edge hLowest (v - h.low).toNat (by omega)
    obtain ⟨right, hRight⟩ := hUnit.exists_edge hLowest ((v - h.low).toNat + 1) (by omega)
    refine ⟨x, left, right, hx, hLeft, hRight, ?_, ?_⟩
    · rw [hEstimate (by decide), computed, hUnit.fractionBelow_inside hSome hLow hHigh hx hLeft]
      rfl
    · rw [hEstimate (by decide), computed, hUnit.fractionFrom_inside hSome hLow hHigh hx hRight]
      rfl
  · obtain ⟨hBelow, hFrom⟩ := hUnit.fractions_tooLarge hLow hHigh hBeyond
    rw [hEstimate (by decide), hEstimate (by decide), computed, computed, hBelow, hFrom]
    exact ⟨rfl, rfl⟩
  · have hFractions := hUnit.fractions_near hSome hNear hEnd
    obtain ⟨hLessEqual, hGreater⟩ := nearestFraction_succ values v
    rw [hEstimate hOp]
    cases op with
    | like => exact absurd rfl hOp
    | notEqual => exact absurd rfl hNot
    | equal => rw [computed, hEqual]; rfl
    | less => rw [computed, (hFractions v).1]; rfl
    | lessEqual => rw [computed, (hFractions (v + 1)).1, hLessEqual]; rfl
    | greater => rw [computed, (hFractions (v + 1)).2, hGreater]; rfl
    | greaterEqual => rw [computed, (hFractions v).2]; rfl

/--
With as many buckets as integers, or more, any values of the domain can be added, and the
estimates are what they are for a bucket for each integer.
-/
theorem unitEstimates_of_create (hDomain : low ≤ high) (hBuckets : high - low + 1 ≤ buckets)
    (hSmall : high - low < wholeLimit) (hWithin : ∀ x ∈ values, low ≤ x ∧ x ≤ high)
    (hFew : values.length ≤ wholeLimit) (hSome : values ≠ []) :
    ∃ start h : Histogram Binary64, create buckets low high = .ok start ∧
      start.addAll values = (h, .ok ()) ∧ h.low = low ∧ h.high = high ∧
      UnitEstimates values h := by
  obtain ⟨start, h, hCreate, hAdded, hLow, hHigh, hUnit⟩ :=
    exists_unitBuckets hBuckets hSmall hDomain hWithin hFew
  exact ⟨start, h, hCreate, hAdded, hLow, hHigh, unitEstimates_of_unitBuckets hUnit hSome⟩

/-- Nanoseconds since 1970, in November 2023. -/
def timestamp : Int := 1700000000000000000

/-- The statement at two moments that are three nanoseconds apart. -/
theorem unitEstimates_of_create_timestamps :
    ∃ start h : Histogram Binary64, create 4 timestamp (timestamp + 3) = .ok start ∧
      start.addAll [timestamp, timestamp + 3] = (h, .ok ()) ∧ h.low = timestamp ∧
      h.high = timestamp + 3 ∧ UnitEstimates [timestamp, timestamp + 3] h :=
  unitEstimates_of_create (by decide) (by decide) (by decide) (by decide) (by decide) (by decide)

/-- The later moment does not count from itself on: both of its edges have the double that it
has itself. -/
theorem estimate_timestamps :
    ∃ start h : Histogram Binary64, create 4 timestamp (timestamp + 3) = .ok start ∧
      start.addAll [timestamp, timestamp + 3] = (h, .ok ()) ∧
      h.estimate .less (.whole (timestamp + 3)) =
        .ok (nearestFraction [timestamp, timestamp + 3] .less (timestamp + 3)) ∧
      h.estimate .greaterEqual (.whole (timestamp + 3)) = .ok zero ∧
      nearestFraction [timestamp, timestamp + 3] .greaterEqual (timestamp + 3) ≠ zero := by
  have hCreated : ((create 4 timestamp (timestamp + 3) :
      Outcome (Histogram Binary64)).toOption.any fun start =>
        let (h, added) := start.addAll [timestamp, timestamp + 3]
        added.toOption.isSome &&
          (h.estimate .less (.whole (timestamp + 3))).toOption ==
            some (nearestFraction [timestamp, timestamp + 3] .less (timestamp + 3)) &&
          (h.estimate .greaterEqual (.whole (timestamp + 3))).toOption == some zero) = true := by
    decide +kernel
  obtain ⟨start, hStart, hAll⟩ := (Option.any_eq_true _ _).mp hCreated
  obtain ⟨hBoth, hFrom⟩ := Bool.and_eq_true_iff.mp hAll
  obtain ⟨hAdded, hBelow⟩ := Bool.and_eq_true_iff.mp hBoth
  obtain ⟨⟨⟩, hOk⟩ := exists_eq_ok_of_isSome hAdded
  exact ⟨start, _, eq_ok_of_toOption hStart, Prod.ext rfl hOk,
    eq_ok_of_toOption (eq_of_beq hBelow), eq_ok_of_toOption (eq_of_beq hFrom), by decide +kernel⟩

end Histogram

end JoinPlanner
