import JoinPlanner.Histogram.Textual
import JoinPlanner.Proofs.Histogram.Distribution
import JoinPlanner.Proofs.Histogram.Widths
import Mathlib.Data.List.TakeDrop

/-!
# JoinPlanner — the order of texts in histograms

The number of a text is written with the digits of its first characters. The first digit decides
before all others, as the first character does in the order of texts; a digit that is missing
counts like the smallest one. So the numbers of texts are in the order of the texts, as far as
their first characters are digits, and the estimates of a histogram are in the order of the numbers.

* `leadingValue_succ` — the first digit, and the number of the rest.
* `leadingNumber_lt`, `exists_filled_texts` — every text has a bucket.
* `leadingValue_le`, `leadingValue_eq_iff` — numbers are in the order of the texts, and the same for
  the same beginnings.
* `OrderedTexts`, `textEstimates_ordered` — the statement about texts and their estimates.
-/

namespace JoinPlanner

open Outcome Binary64

-- ---------------------------------------------------------------------------
-- Digits
-- ---------------------------------------------------------------------------

/-- The larger first digit decides, whatever comes after it. -/
theorem mul_add_lt {a b x y base : Nat} (hLess : a < b) (hx : x < base) :
    a * base + x < b * base + y :=
  calc a * base + x < a * base + base := Nat.add_lt_add_left hx _
    _ = (a + 1) * base := (Nat.succ_mul a base).symm
    _ ≤ b * base := Nat.mul_le_mul_right base hLess
    _ ≤ b * base + y := Nat.le_add_right _ _

theorem mul_add_eq_iff {a b x y base : Nat} (hx : x < base) (hy : y < base) :
    a * base + x = b * base + y ↔ a = b ∧ x = y := by
  constructor
  · intro hSame
    rcases Nat.lt_trichotomy a b with hLess | rfl | hLess
    · exact absurd hSame (mul_add_lt hLess hx).ne
    · exact ⟨rfl, Nat.add_left_cancel hSame⟩
    · exact absurd hSame (mul_add_lt hLess hy).ne'
  · rintro ⟨rfl, rfl⟩
    rfl

theorem leadingDigit_lt (cs : List Char) (position : Nat) :
    leadingDigit cs position < leadingBase := by
  unfold leadingDigit leadingBase
  split <;> omega

theorem leadingDigit_tail (cs : List Char) (position : Nat) :
    leadingDigit cs.tail position = leadingDigit cs (position + 1) := by
  rw [leadingDigit, leadingDigit, List.getElem?_tail]

/-- The number of so many digits. -/
def leadingValue (length : Nat) (cs : List Char) : Nat :=
  (List.range length).foldl (fun value i => value * leadingBase + leadingDigit cs i) 0

variable {n : Nat} {cs ds : List Char}

/-- The last digit comes with no power of the base. -/
theorem leadingValue_succ_last (n : Nat) (cs : List Char) :
    leadingValue (n + 1) cs = leadingValue n cs * leadingBase + leadingDigit cs n := by
  rw [leadingValue, List.range_succ, List.foldl_append]
  rfl

/-- The first digit comes with the largest power of the base. -/
theorem leadingValue_succ (n : Nat) (cs : List Char) :
    leadingValue (n + 1) cs =
      leadingDigit cs 0 * leadingBase ^ n + leadingValue n cs.tail := by
  induction n with
  | zero => simp [leadingValue]
  | succ n ih =>
    rw [leadingValue_succ_last, ih, leadingValue_succ_last n cs.tail, leadingDigit_tail,
      Nat.pow_succ]
    ring

@[simp] theorem leadingValue_nil (n : Nat) : leadingValue n [] = 0 := by
  induction n with
  | zero => rfl
  | succ n ih =>
    rw [leadingValue_succ_last, ih]
    rfl

/-- Digits make up a number of their length. -/
theorem leadingValue_lt (n : Nat) (cs : List Char) : leadingValue n cs < leadingBase ^ n := by
  induction n with
  | zero => exact Nat.one_pos
  | succ n ih =>
    have hLess := mul_add_lt (y := 0) ih (leadingDigit_lt cs n)
    rwa [Nat.add_zero, ← Nat.pow_succ, ← leadingValue_succ_last] at hLess

theorem leadingNumber_lt (text : String) : leadingNumber text < leadingBase ^ leadingLength :=
  leadingValue_lt leadingLength text.toList

/-- The number of a text is in the domain of the histograms of texts. -/
theorem leadingNumber_le (text : String) :
    leadingNumber text ≤ Nat.pow leadingBase leadingLength - 1 :=
  Nat.le_sub_one_of_lt (leadingNumber_lt text)

-- ---------------------------------------------------------------------------
-- Every text has a bucket
-- ---------------------------------------------------------------------------

/-- The histogram of all texts takes every text. -/
theorem exists_filled_texts {buckets : Int} (hBuckets : 1 ≤ buckets) :
    ∃ start : TextHistogram Binary64, TextHistogram.create buckets = .ok start ∧
      (∃ low high, Histogram.create buckets low high = .ok start.inner) ∧
      ∀ text, ∃ i, start.inner.locate (leadingNumber text) = .ok i := by
  have hLargest : (Nat.pow leadingBase leadingLength - 1 : Nat) ≤ wholeLimit := by
    norm_num [leadingBase, leadingLength, wholeLimit]
  have hSmall : ∀ n : Nat, n ≤ wholeLimit → Convertible ((n : Int) - 0) := by
    intro n hn
    exact convertible_of_le_wholeLimit (by simpa using hn)
  obtain ⟨start, hCreate⟩ := Histogram.exists_create (Int.natCast_nonneg _) hBuckets
    (hSmall _ hLargest) fun _ => convertible_of_le_wholeLimit (by
      norm_num [leadingBase, leadingLength, wholeLimit])
  refine ⟨⟨start⟩, ?_, ⟨_, _, hCreate⟩, fun text => ?_⟩
  · rw [TextHistogram.create, hCreate]
    rfl
  · have hLe := leadingNumber_le text
    have hDivides := Histogram.divides_of_create hCreate
    obtain ⟨-, -, width, -, rfl⟩ := Histogram.create_eq_ok hCreate
    exact Histogram.exists_locate hDivides ⟨Int.natCast_nonneg _, Int.ofNat_le.mpr hLe⟩
      (hSmall _ (hLe.trans hLargest))

/-- If every text has a bucket, any texts can be added. -/
theorem addAll_texts {start : Histogram Binary64}
    (hLocated : ∀ text, ∃ i, start.locate (leadingNumber text) = .ok i) (texts : List String) :
    (start.addAll (texts.map fun text => (leadingNumber text : Int))).2 = .ok () := by
  refine Histogram.addAll_eq_ok_iff.mpr fun v hv => ?_
  obtain ⟨text, -, rfl⟩ := List.mem_map.mp hv
  exact hLocated text

/-- The numbers of all texts are in the domain, and all texts can be added in any sequence. -/
structure TextHistogram.TakesTexts (start : TextHistogram Binary64) : Prop where
  domain : ∀ text, start.inner.low ≤ leadingNumber text ∧
    (leadingNumber text : Int) ≤ start.inner.high
  adds : ∀ texts, ∃ h, start.addAll texts = (h, .ok ()) ∧ ∀ text, ∃ next, h.add text = .ok next

theorem exists_takesTexts {buckets : Int} (hBuckets : 1 ≤ buckets) :
    ∃ start : TextHistogram Binary64, TextHistogram.create buckets = .ok start ∧
      start.TakesTexts := by
  obtain ⟨start, hCreate, ⟨low, high, hInner⟩, hLocated⟩ := exists_filled_texts hBuckets
  refine ⟨start, hCreate, fun text => ?_, fun texts => ?_⟩
  · obtain ⟨i, hLocate⟩ := hLocated text
    exact ((Histogram.locate_eq_ok_iff (Histogram.divides_of_create hInner)).mp hLocate).domain
  · have hAll := addAll_texts hLocated texts
    have hTally := Histogram.tally_of_addAll hInner (Prod.ext rfl hAll)
    refine ⟨_, Prod.ext rfl hAll, fun text => ?_⟩
    -- additions move no bucket
    obtain ⟨i, hLocate⟩ := hLocated text
    rw [← hTally.frame.locate_eq] at hLocate
    exact ⟨_, bind_eq_ok.mpr ⟨_, bind_eq_ok.mpr ⟨i, hLocate, rfl⟩, rfl⟩⟩

-- ---------------------------------------------------------------------------
-- The order of numbers
-- ---------------------------------------------------------------------------

/-- The first characters are digits, as far as there are any. -/
def Digits (length : Nat) (cs : List Char) : Prop :=
  ∀ c ∈ cs.take length, c.toNat < leadingBase

instance (length : Nat) (cs : List Char) : Decidable (Digits length cs) :=
  List.decidableBAll (fun c : Char => c.toNat < leadingBase) (cs.take length)

theorem Digits.tail (h : Digits (n + 1) cs) : Digits n cs.tail := by
  intro c hc
  cases cs with
  | nil =>
    rw [List.tail_nil, List.take_nil] at hc
    cases hc
  | cons first rest => exact h c (List.mem_cons_of_mem first hc)

/-- A missing digit is that of the smallest character. -/
theorem Digits.leadingDigit_zero (h : Digits (n + 1) cs) :
    leadingDigit cs 0 = (cs.head?.getD '\x00').toNat := by
  cases cs with
  | nil => rfl
  | cons c rest =>
    have hLess : c.toNat < leadingBase := h c List.mem_cons_self
    exact Nat.min_eq_left (Nat.le_sub_one_of_lt hLess)

/-- Only the same beginnings have the same number; missing characters count like the smallest
one. -/
theorem leadingValue_eq_iff (hcs : Digits n cs) (hds : Digits n ds) :
    leadingValue n cs = leadingValue n ds ↔ cs.takeD n '\x00' = ds.takeD n '\x00' := by
  induction n generalizing cs ds with
  | zero => simp [leadingValue]
  | succ n ih =>
    rw [leadingValue_succ, leadingValue_succ, List.takeD_succ, List.takeD_succ, List.cons.injEq,
      mul_add_eq_iff (leadingValue_lt n _) (leadingValue_lt n _), hcs.leadingDigit_zero,
      hds.leadingDigit_zero, Char.toNat_inj, ih hcs.tail hds.tail]

/-- Numbers are in the order of the texts. -/
theorem leadingValue_le (hcs : Digits n cs) (hds : Digits n ds) (hLe : ¬ ds < cs) :
    leadingValue n cs ≤ leadingValue n ds := by
  induction n generalizing cs ds with
  | zero => exact Nat.le_refl _
  | succ n ih =>
    cases cs with
    | nil => simp
    | cons c cs =>
      cases ds with
      | nil => exact absurd (List.nil_lt_cons c cs) hLe
      | cons d ds =>
        rw [leadingValue_succ, leadingValue_succ, hcs.leadingDigit_zero, hds.leadingDigit_zero]
        -- the first characters decide, unless they are the same
        rcases Nat.lt_trichotomy c.toNat d.toNat with hLess | hSame | hLess
        · exact (mul_add_lt hLess (leadingValue_lt n cs)).le
        · obtain rfl := Char.toNat_inj.mp hSame
          have hRest : ¬ ds < cs := fun hLess => hLe (List.cons_lt_cons_self.mpr hLess)
          exact Nat.add_le_add_left (ih hcs.tail hds.tail hRest) _
        · have hBefore : d < c := hLess
          exact absurd (List.Lex.rel hBefore) hLe

/-- Texts in their order, whose first characters are digits. -/
structure TextsInOrder (s t : String) : Prop where
  first : Digits leadingLength s.toList
  second : Digits leadingLength t.toList
  le : s ≤ t

/-- The characters of a text that count. -/
def leadingCharacters (text : String) : List Char := text.toList.takeD leadingLength '\x00'

theorem TextsInOrder.leadingNumber_le {s t : String} (h : TextsInOrder s t) :
    leadingNumber s ≤ leadingNumber t :=
  leadingValue_le h.first h.second fun hLess => h.le hLess

theorem TextsInOrder.leadingNumber_eq_iff {s t : String} (h : TextsInOrder s t) :
    leadingNumber s = leadingNumber t ↔ leadingCharacters s = leadingCharacters t :=
  leadingValue_eq_iff h.first h.second

-- ---------------------------------------------------------------------------
-- The order of estimates
-- ---------------------------------------------------------------------------

/-- A function that gives the estimates of all supported comparisons with texts. -/
def TextHistogram.Estimates {ρ : Rounding} (h : TextHistogram (Rounded ρ))
    (est : Comparison → String → Rat) : Prop :=
  ∀ op text, op ≠ .like → h.estimate op text = .ok ⟨est op text⟩

/-- Of texts in their order, the second has no less below it and no more above it. -/
structure OrderedTexts (est : Comparison → String → Rat) : Prop where
  less : ∀ s t, TextsInOrder s t → est .less s ≤ est .less t
  lessEqual : ∀ s t, TextsInOrder s t → est .lessEqual s ≤ est .lessEqual t
  greater : ∀ s t, TextsInOrder s t → est .greater t ≤ est .greater s
  greaterEqual : ∀ s t, TextsInOrder s t → est .greaterEqual t ≤ est .greaterEqual s

/-- The estimates for numbers in their order are those for texts in their order. -/
theorem orderedTexts_estimated {h : Histogram Unrounded} {values : List Int}
    (hFilled : h.Filled values) (hSome : values ≠ []) :
    OrderedTexts fun op text => h.estimated op (leadingNumber text) := by
  have hBelow := hFilled.below_mono
  have hAbove := hFilled.above_anti (hFilled.total_ne_zero hSome)
  have hNumbers : ∀ s t, TextsInOrder s t → (leadingNumber s : Int) ≤ leadingNumber t :=
    fun s t hOrder => Int.ofNat_le.mpr hOrder.leadingNumber_le
  exact {
    less := fun s t hOrder => hBelow (hNumbers s t hOrder)
    lessEqual := fun s t hOrder => hBelow (Int.add_le_add_right (hNumbers s t hOrder) 1)
    greater := fun s t hOrder => hAbove (Int.add_le_add_right (hNumbers s t hOrder) 1)
    greaterEqual := fun s t hOrder => hAbove (hNumbers s t hOrder) }

theorem exists_orderedTexts {buckets : Int} (hBuckets : 1 ≤ buckets) {texts : List String}
    (hSome : texts ≠ []) :
    ∃ (start h : TextHistogram Unrounded) (est : Comparison → String → Rat),
      TextHistogram.create buckets = .ok start ∧ start.addAll texts = (h, .ok ()) ∧
      h.Estimates est ∧ OrderedTexts est := by
  have hValues : texts.map (fun text => (leadingNumber text : Int)) ≠ [] :=
    fun hNone => hSome (List.map_eq_nil_iff.mp hNone)
  have hDomain : ∀ v ∈ texts.map (fun text => (leadingNumber text : Int)),
      0 ≤ v ∧ v ≤ (Nat.pow leadingBase leadingLength - 1 : Nat) := by
    intro v hv
    obtain ⟨text, -, rfl⟩ := List.mem_map.mp hv
    exact ⟨Int.natCast_nonneg _, Int.ofNat_le.mpr (leadingNumber_le text)⟩
  obtain ⟨start, h, hCreate, hAdded, hFilled⟩ :=
    Histogram.exists_filled .exact hBuckets hValues hDomain
  refine ⟨⟨start⟩, ⟨h⟩, _, ?_, ?_, fun op text hOp => ?_, orderedTexts_estimated hFilled hValues⟩
  · rw [TextHistogram.create, hCreate]
    rfl
  · rw [TextHistogram.addAll, hAdded]
  · exact Histogram.estimate_eq (hFilled.total_ne_zero hValues) op _ hOp

/--
The histogram of texts takes all of them. The numbers of texts whose first characters are digits
are in the order of these texts, and so are the estimates, without roundings, of a histogram that
any texts were added to.
-/
theorem textEstimates_ordered {buckets : Int} (hBuckets : 1 ≤ buckets) :
    (∃ start : TextHistogram Binary64, TextHistogram.create buckets = .ok start ∧
      start.TakesTexts) ∧
    (∀ s t, TextsInOrder s t → leadingNumber s ≤ leadingNumber t ∧
      (leadingNumber s = leadingNumber t ↔ leadingCharacters s = leadingCharacters t)) ∧
    ∀ texts, texts ≠ [] →
      ∃ (start h : TextHistogram Unrounded) (est : Comparison → String → Rat),
        TextHistogram.create buckets = .ok start ∧ start.addAll texts = (h, .ok ()) ∧
        h.Estimates est ∧ OrderedTexts est :=
  ⟨exists_takesTexts hBuckets,
    fun _ _ hOrder => ⟨hOrder.leadingNumber_le, hOrder.leadingNumber_eq_iff⟩,
    fun _ hSome => exists_orderedTexts hBuckets hSome⟩

/-- The statement for a beginning and its extension, and for three texts in seven buckets. -/
theorem textEstimates_ordered_beginning :
    (∃ start : TextHistogram Binary64, TextHistogram.create 7 = .ok start ∧ start.TakesTexts) ∧
    leadingNumber "ab" ≤ leadingNumber "abc" ∧
    (leadingNumber "ab" = leadingNumber "abc" ↔
      leadingCharacters "ab" = leadingCharacters "abc") ∧
    ∃ (start h : TextHistogram Unrounded) (est : Comparison → String → Rat),
      TextHistogram.create 7 = .ok start ∧ start.addAll ["", "ab", "zebra"] = (h, .ok ()) ∧
      h.Estimates est ∧ est .less "ab" ≤ est .less "abc" := by
  have hOrder : TextsInOrder "ab" "abc" := ⟨by decide +kernel, by decide +kernel, by decide +kernel⟩
  obtain ⟨hTakes, hNumbers, hEstimates⟩ := textEstimates_ordered (show (1 : Int) ≤ 7 by decide)
  obtain ⟨hLe, hSame⟩ := hNumbers "ab" "abc" hOrder
  obtain ⟨start, h, est, hCreate, hAdded, hEst, hOrdered⟩ :=
    hEstimates ["", "ab", "zebra"] (List.cons_ne_nil _ _)
  exact ⟨hTakes, hLe, hSame, start, h, est, hCreate, hAdded, hEst,
    hOrdered.less "ab" "abc" hOrder⟩

end JoinPlanner
