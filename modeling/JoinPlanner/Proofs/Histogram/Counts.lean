import JoinPlanner.Histogram.Basic
import JoinPlanner.Proofs.Outcome
import Mathlib.Algebra.GroupWithZero.Nat
import Mathlib.Data.List.TakeWhile

/-!
# JoinPlanner — what a histogram counts

Which bucket a value falls into is a matter of the arithmetic. How the buckets are counted is
not: a value that is added goes into its bucket, moves no other value to another bucket, and the
counts of all buckets together are the number of values.

* `create_eq_ok`        — what a new histogram consists of.
* `SameFrame`           — additions move no bucket.
* `Tally`               — the counts are those of the values that were added.
* `Tally.increment`, `Tally.addAll` — one more value, and several of them.
* `addAll_eq_ok_iff`    — a call succeeds if every value has a bucket.
* `countBelow_add_countAbove` — a bucket, those before and those after it hold all values.
* `Tally.countBelow_eq` — the values in the buckets before some bucket.
-/

namespace JoinPlanner.Histogram

open Outcome

variable {α : Type} {h start : Histogram α} {buckets low high v : Int} {i b : Nat}
  {values vs : List Int}

-- ---------------------------------------------------------------------------
-- Frames
-- ---------------------------------------------------------------------------

/-- Both histograms divide the same domain into the same buckets. -/
structure SameFrame (h start : Histogram α) : Prop where
  low : h.low = start.low
  high : h.high = start.high
  width : h.width = start.width
  bucketCount : h.bucketCount = start.bucketCount

theorem sameFrame_refl (h : Histogram α) : SameFrame h h := ⟨rfl, rfl, rfl, rfl⟩

theorem SameFrame.increment (hFrame : SameFrame h start) (i : Nat) :
    SameFrame (h.increment i) start := by
  refine ⟨hFrame.low, hFrame.high, hFrame.width, ?_⟩
  rw [← hFrame.bucketCount, Histogram.bucketCount, Histogram.increment, Array.size_modify]
  rfl

-- ---------------------------------------------------------------------------
-- Buckets before and after
-- ---------------------------------------------------------------------------

theorem countBelow_eq_sum : h.countBelow b = (h.counts.toList.take b).sum := rfl

theorem countAbove_eq_sum : h.countAbove b = (h.counts.toList.drop (b + 1)).sum := rfl

@[simp] theorem countBelow_zero (h : Histogram α) : h.countBelow 0 = 0 := by
  rw [countBelow_eq_sum, List.take_zero, List.sum_nil]

theorem countBelow_succ (h : Histogram α) (b : Nat) :
    h.countBelow (b + 1) = h.countBelow b + h.countOf b := by
  rw [countBelow_eq_sum, countBelow_eq_sum, countOf, List.take_add_one, List.sum_append,
    Array.getElem?_toList]
  cases h.counts[b]? <;> simp

/-- Later buckets have no fewer values before them. -/
theorem countBelow_mono {a : Nat} (hLe : a ≤ b) : h.countBelow a ≤ h.countBelow b := by
  induction hLe with
  | refl => exact Nat.le_refl _
  | step _ ih =>
    rw [Nat.succ_eq_add_one, countBelow_succ]
    omega

/-- A bucket, those before and those after it hold all values. -/
theorem countBelow_add_countAbove (hSum : h.counts.toList.sum = h.total) (b : Nat) :
    h.countBelow b + h.countOf b + h.countAbove b = h.total := by
  rw [← countBelow_succ, countBelow_eq_sum, countAbove_eq_sum, ← List.sum_append,
    List.take_append_drop, hSum]

variable [Arithmetic α]

-- ---------------------------------------------------------------------------
-- New histograms
-- ---------------------------------------------------------------------------

/-- A histogram is made for a domain that is not empty, unless its width cannot be computed. -/
theorem create_eq_ok (hCreate : create buckets low high = .ok h) : low ≤ high ∧ 1 ≤ buckets ∧
    ∃ width, Arithmetic.quotient (high - low + 1) (min buckets (high - low + 1)) = .ok width ∧
      h = ⟨low, high, width, Array.replicate (min buckets (high - low + 1)).toNat 0, 0⟩ := by
  rw [create] at hCreate
  by_cases hEmpty : high < low
  · rw [if_pos hEmpty] at hCreate
    cases hCreate
  rw [if_neg hEmpty] at hCreate
  by_cases hNone : buckets < 1
  · rw [if_pos hNone] at hCreate
    cases hCreate
  rw [if_neg hNone] at hCreate
  obtain ⟨width, hWidth, hEq⟩ := bind_eq_ok.mp hCreate
  exact ⟨Int.not_lt.mp hEmpty, Int.not_lt.mp hNone, width, ofNumber_eq_ok.mp hWidth,
    (pure_eq_ok.mp hEq).symm⟩

/-- There is no more than one bucket for each integer, and at least one. -/
theorem bucketCount_of_create (hCreate : create buckets low high = .ok h) :
    (h.bucketCount : Int) = min buckets (high - low + 1) ∧ 0 < h.bucketCount := by
  obtain ⟨hDomain, hBuckets, width, -, rfl⟩ := create_eq_ok hCreate
  rw [bucketCount, Array.size_replicate]
  omega

/-- The bucket of a value is one that there is. -/
theorem lt_bucketCount_of_locate (hPos : 0 < h.bucketCount) (hLocate : h.locate v = .ok i) :
    i < h.bucketCount := by
  obtain ⟨-, hIndex⟩ : ¬ (v < h.low ∨ h.high < v) ∧ h.bucketIndex (.whole v) = .ok i := by
    rw [locate] at hLocate
    by_cases hOut : v < h.low ∨ h.high < v
    · rw [if_pos hOut] at hLocate
      cases hLocate
    · rw [if_neg hOut] at hLocate
      exact ⟨hOut, ofNumber_eq_ok.mp hLocate⟩
  obtain ⟨_, -, hIndex⟩ := bind_eq_ok.mp hIndex
  obtain ⟨_, -, hIndex⟩ := bind_eq_ok.mp hIndex
  obtain ⟨raw, -, hIndex⟩ := bind_eq_ok.mp hIndex
  have hMin := pure_eq_ok.mp hIndex
  omega

-- ---------------------------------------------------------------------------
-- Adding
-- ---------------------------------------------------------------------------

theorem SameFrame.locate_eq (hFrame : SameFrame h start) (v : Int) :
    h.locate v = start.locate v := by
  simp only [locate, bucketIndex, hFrame.low, hFrame.high, hFrame.width, hFrame.bucketCount]

/-- The counts are those of the values that were added since the histogram was new. -/
structure Tally (start h : Histogram α) (values : List Int) : Prop where
  frame : SameFrame h start
  total : h.total = values.length
  sum : h.counts.toList.sum = h.total
  count : ∀ i, i < h.bucketCount →
    h.counts[i]? = some (values.countP fun v => (start.locate v).toOption == some i)
  located : ∀ v ∈ values, ∃ i, start.locate v = .ok i

/-- A new histogram counts nothing. -/
theorem tally_of_create (hCreate : create buckets low high = .ok h) : Tally h h [] := by
  obtain ⟨-, -, width, -, rfl⟩ := create_eq_ok hCreate
  refine ⟨sameFrame_refl _, rfl, ?_, fun i hi => ?_, fun v hv => by cases hv⟩
  · simp
  · rw [bucketCount, Array.size_replicate] at hi
    rw [Array.getElem?_replicate, if_pos hi, List.countP_nil]

theorem sum_modify_succ {counts : List Nat} (hi : i < counts.length) :
    (counts.modify i (· + 1)).sum = counts.sum + 1 := by
  induction counts generalizing i with
  | nil => cases hi
  | cons count rest ih =>
    cases i with
    | zero =>
      show count + 1 + rest.sum = count + rest.sum + 1
      omega
    | succ i =>
      show count + (rest.modify i (· + 1)).sum = count + rest.sum + 1
      rw [ih (Nat.lt_of_succ_lt_succ hi)]
      omega

/-- One more value is counted in its bucket. -/
theorem Tally.increment (hPos : 0 < start.bucketCount) (hTally : Tally start h values)
    (hLocate : h.locate v = .ok i) : Tally start (h.increment i) (values ++ [v]) := by
  have hStart : start.locate v = .ok i := (hTally.frame.locate_eq v).symm.trans hLocate
  have hBucket : i < h.bucketCount := by
    rw [hTally.frame.bucketCount]
    exact lt_bucketCount_of_locate hPos hStart
  refine ⟨hTally.frame.increment i, ?_, ?_, fun j hj => ?_, fun w hw => ?_⟩
  · rw [List.length_append, ← hTally.total]
    rfl
  · show (h.counts.modify i (· + 1)).toList.sum = h.total + 1
    rw [Array.toList_modify, sum_modify_succ hBucket, hTally.sum]
  · rw [((hTally.frame.increment i).bucketCount.trans hTally.frame.bucketCount.symm)] at hj
    show (h.counts.modify i (· + 1))[j]? = _
    rw [Array.getElem?_modify, hTally.count j hj, List.countP_append, List.countP_singleton,
      hStart]
    by_cases hSame : i = j <;> simp [hSame, Except.toOption]
  · rcases List.mem_append.mp hw with hOld | hNew
    · exact hTally.located w hOld
    · rw [List.mem_singleton.mp hNew]
      exact ⟨i, hStart⟩

theorem addAll_cons_of_ok (rest : List Int) (hLocate : h.locate v = .ok i) :
    h.addAll (v :: rest) = (h.increment i).addAll rest := by
  rw [addAll, hLocate]

theorem addAll_cons_of_error (rest : List Int) {e : PlannerError}
    (hLocate : h.locate v = .error e) : h.addAll (v :: rest) = (h, .error e) := by
  rw [addAll, hLocate]

/-- The values before the first one that has no bucket are counted. -/
theorem Tally.addAll (hPos : 0 < start.bucketCount) (hTally : Tally start h values)
    (vs : List Int) : Tally start (h.addAll vs).1
      (values ++ vs.takeWhile fun v => (h.locate v).toOption.isSome) := by
  induction vs generalizing h values with
  | nil =>
    rw [List.takeWhile_nil, List.append_nil]
    exact hTally
  | cons v rest ih =>
    cases hLocate : h.locate v with
    | error e =>
      rw [addAll_cons_of_error rest hLocate,
        List.takeWhile_cons_of_neg (by simp [hLocate, Except.toOption]), List.append_nil]
      exact hTally
    | ok i =>
      have hRest := ih (hTally.increment hPos hLocate)
      simp only [((sameFrame_refl h).increment i).locate_eq, List.append_assoc] at hRest
      rw [addAll_cons_of_ok rest hLocate,
        List.takeWhile_cons_of_pos (by simp [hLocate, Except.toOption])]
      exact hRest

/-- A call succeeds if and only if each of its values has a bucket. -/
theorem addAll_eq_ok_iff : (h.addAll vs).2 = .ok () ↔ ∀ v ∈ vs, ∃ i, h.locate v = .ok i := by
  induction vs generalizing h with
  | nil => simp [addAll]
  | cons v rest ih =>
    rw [List.forall_mem_cons]
    cases hLocate : h.locate v with
    | error e => simp [addAll_cons_of_error rest hLocate]
    | ok i =>
      rw [addAll_cons_of_ok rest hLocate, ih]
      simp only [((sameFrame_refl h).increment i).locate_eq]
      exact ⟨fun hRest => ⟨⟨i, rfl⟩, hRest⟩, fun hBoth => hBoth.2⟩

/-- After a call that succeeds all of its values are counted. -/
theorem tally_of_addAll (hCreate : create buckets low high = .ok start)
    (hAdded : start.addAll values = (h, .ok ())) : Tally start h values := by
  have hTally := (tally_of_create hCreate).addAll (bucketCount_of_create hCreate).2 values
  have hLocated := addAll_eq_ok_iff.mp (congrArg Prod.snd hAdded)
  have hAll : (values.takeWhile fun v => (start.locate v).toOption.isSome) = values := by
    refine List.takeWhile_eq_self_iff.mpr fun v hv => ?_
    obtain ⟨i, hLocate⟩ := hLocated v hv
    simp [hLocate, Except.toOption]
  rwa [List.nil_append, hAll, hAdded] at hTally

-- ---------------------------------------------------------------------------
-- Counts of values
-- ---------------------------------------------------------------------------

/-- The count of a bucket is the number of its values. -/
theorem Tally.countOf_eq (hTally : Tally start h values) (hb : b < h.bucketCount) :
    h.countOf b = values.countP fun v => (start.locate v).toOption == some b := by
  rw [countOf, hTally.count b hb, Option.getD_some]

/-- The elements of which the image is below a bound, or is the bound. -/
theorem countP_lt_succ (f : Int → Option Nat) (b : Nat) (values : List Int) :
    values.countP (fun v => (f v).any (· < b + 1)) =
      values.countP (fun v => (f v).any (· < b)) + values.countP fun v => f v == some b := by
  induction values with
  | nil => rfl
  | cons v rest ih =>
    simp only [List.countP_cons, ih]
    cases f v with
    | none => simp
    | some i =>
      simp only [Option.any_some, decide_eq_true_eq, beq_iff_eq, Option.some.injEq]
      split_ifs <;> omega

/-- The values in the buckets before some bucket are those whose buckets come before it. -/
theorem Tally.countBelow_eq (hTally : Tally start h values) (hb : b ≤ h.bucketCount) :
    h.countBelow b = values.countP fun v => (start.locate v).toOption.any (· < b) := by
  induction b with
  | zero =>
    rw [countBelow_zero, eq_comm, List.countP_eq_zero]
    intro v _
    cases (start.locate v).toOption <;> simp
  | succ b ih =>
    rw [countBelow_succ, ih (by omega), hTally.countOf_eq (by omega), countP_lt_succ]

end JoinPlanner.Histogram
