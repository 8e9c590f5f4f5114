import JoinPlanner.Proofs.Histogram.Tallies
import JoinPlanner.Proofs.Histogram.Widths
import JoinPlanner.Proofs.Statistics.Summaries

/-!
# JoinPlanner — filling a histogram from rows

A histogram of a column goes through the rows once. An integer is added or listed, as it lies
between the ends of the range or not; a text is added.

* `fillNumeric_eq`, `fillTextual_eq` — what is added and what is listed.
* `isNumberError_of_fillNumeric`     — how else the filling ends.
* `columnHistogram_of_integer`, `columnHistogram_of_string` — the histogram of a column, from
  these parts.
-/

namespace JoinPlanner

open Outcome Binary64

-- ---------------------------------------------------------------------------
-- Filling
-- ---------------------------------------------------------------------------

/-- The value lies between the two ends, which belong to the range. -/
def inRange (range : Int × Int) (v : Int) : Bool := decide (range.1 ≤ v ∧ v ≤ range.2)

/-- The integer in one column of a row. -/
def Row.int? (row : Row) (column : Nat) : Option Int :=
  match row[column]? with
  | some (.int n) => some n
  | _ => none

theorem Row.int?_eq_some_iff {row : Row} {column : Nat} {v : Int} :
    row.int? column = some v ↔ row[column]? = some (.int v) := by
  unfold Row.int?
  rcases row[column]? with _ | ⟨n⟩ | ⟨s⟩ <;> simp

/-- The integers in a column of some rows. -/
def integersOf (rows : List Row) (column : Nat) : List Int :=
  rows.filterMap fun row => row.int? column

/-- The texts in a column of some rows. -/
def textsOf (rows : List Row) (column : Nat) : List String :=
  rows.filterMap fun row => (row.text column).toOption

namespace TableStats

open Histogram

variable {h : Histogram Binary64} {range : Int × Int} {rows : List Row} {values : List Int}
  {column : Nat}

theorem bucketOf_of_inRange {v : Int} (hIn : inRange range v) :
    bucketOf (.integers range.1 range.2) h (.int v) = some <$> h.locate v := by
  have hNot : ¬ (v < range.1 ∨ range.2 < v) := by
    have := of_decide_eq_true hIn
    omega
  simp only [bucketOf, Bounds.excludes, decide_eq_false hNot]
  cases h.locate v <;> rfl

theorem bucketOf_of_not_inRange {v : Int} (hOut : ¬ inRange range v) :
    bucketOf (.integers range.1 range.2) h (.int v) = .ok none := by
  have hOut' : v < range.1 ∨ range.2 < v := by
    have : ¬ (range.1 ≤ v ∧ v ≤ range.2) := fun hBoth => hOut (decide_eq_true hBoth)
    omega
  simp only [bucketOf, Bounds.excludes, decide_eq_true hOut']
  rfl

theorem cell_of_int? {row : Row} {v : Int} (h : row.int? column = some v) :
    row.cell column = .ok (.int v) := by
  rw [Row.cell, Row.int?_eq_some_iff.mp h]

/-- Values of the range are added, the others are listed. -/
theorem fillNumeric_eq (hValues : rows.map (fun row => row.int? column) = values.map some)
    (hLocated : ∀ v ∈ values, inRange range v → ∃ i, h.locate v = .ok i) :
    fillNumeric column (.integers range.1 range.2) h rows =
      ((values.filter fun v => !inRange range v).map .int,
        .ok (h.addAll (values.filter (inRange range))).1) := by
  induction rows generalizing h values with
  | nil =>
    obtain rfl := List.map_eq_nil_iff.mp hValues.symm
    rfl
  | cons row rest ih =>
    obtain ⟨v, others, rfl, hRow, hRest⟩ := List.map_eq_cons_iff.mp hValues.symm
    obtain ⟨hFirst, hOthers⟩ := List.forall_mem_cons.mp hLocated
    rw [fillNumeric, cell_of_int? hRow.symm]
    by_cases hIn : inRange range v
    · obtain ⟨i, hLocate⟩ := hFirst hIn
      have hSame := ((sameFrame_refl h).increment i).locate_eq
      have hNext := ih (h := h.increment i) hRest.symm fun w hw hwIn => by
        rw [hSame]
        exact hOthers w hw hwIn
      have hBucket : bucketOf (.integers range.1 range.2) h (.int v) = .ok (some i) := by
        rw [bucketOf_of_inRange hIn, hLocate]
        rfl
      simp only [hBucket]
      rw [hNext, List.filter_cons_of_neg (by simp [hIn]), List.filter_cons_of_pos hIn,
        addAll_cons_of_ok _ hLocate]
    · simp only [bucketOf_of_not_inRange hIn]
      rw [ih hRest.symm hOthers, List.filter_cons_of_pos (by simp [hIn]),
        List.filter_cons_of_neg hIn, List.map_cons]

/-- A value of the range can only fail because it is too far from the lower end. -/
theorem isNumberError_of_fillNumeric (hDivides : h.Divides) (hDomain : (h.low, h.high) = range)
    (hValues : rows.map (fun row => row.int? column) = values.map some) {e : PlannerError}
    (hError : (fillNumeric column (.integers range.1 range.2) h rows).2 = .error e) :
    e.IsNumberError := by
  induction rows generalizing h values with
  | nil => cases hError
  | cons row rest ih =>
    obtain ⟨v, others, rfl, hRow, hRest⟩ := List.map_eq_cons_iff.mp hValues.symm
    rw [fillNumeric, cell_of_int? hRow.symm] at hError
    by_cases hIn : inRange range v
    · simp only [bucketOf_of_inRange hIn] at hError
      cases hLocate : h.locate v with
      | ok i =>
        rw [hLocate] at hError
        exact ih (((sameFrame_refl h).increment i).divides hDivides) hDomain hRest.symm hError
      | error cause =>
        rw [hLocate] at hError
        cases hError
        rcases (locate_eq_error_iff hDivides).mp hLocate with ⟨hFails, -⟩ | ⟨-, -, -, rfl⟩
        · subst hDomain
          have := of_decide_eq_true hIn
          omega
        · exact trivial
    · simp only [bucketOf_of_not_inRange hIn] at hError
      exact ih hDivides hDomain hRest.symm hError

/-- Texts are added. -/
theorem fillTextual_eq {h : TextHistogram Binary64} {texts : List String}
    (hTexts : rows.map (fun row => row.text column) = texts.map .ok)
    (hLocated : ∀ text ∈ texts, ∃ i, h.inner.locate (leadingNumber text) = .ok i) :
    fillTextual column h rows = .ok (h.addAll texts).1 := by
  induction rows generalizing h texts with
  | nil =>
    obtain rfl := List.map_eq_nil_iff.mp hTexts.symm
    rfl
  | cons row rest ih =>
    obtain ⟨text, others, rfl, hRow, hRest⟩ := List.map_eq_cons_iff.mp hTexts.symm
    obtain ⟨⟨i, hLocate⟩, hOthers⟩ := List.forall_mem_cons.mp hLocated
    have hSame := ((sameFrame_refl h.inner).increment i).locate_eq
    have hNext := ih (h := ⟨h.inner.increment i⟩) hRest.symm fun other hOther => by
      rw [hSame]
      exact hOthers other hOther
    have hText : row.text column = .ok text := hRow.symm
    rw [fillTextual, hText]
    simp only [hLocate]
    rw [hNext, TextHistogram.addAll, TextHistogram.addAll, List.map_cons,
      addAll_cons_of_ok _ hLocate]

-- ---------------------------------------------------------------------------
-- Building
-- ---------------------------------------------------------------------------

variable {stats : TableStats} {read : Scan}

theorem columnType_position {schema : Schema} {c : Column}
    (hColumn : schema.columns[column]? = some c) :
    schema.columnType (.position column) = .ok c.type := by
  have hLt := (List.getElem?_eq_some_iff.mp hColumn).1
  have hLocate : schema.locate (.position column) = .ok column := by
    rw [Schema.locate, if_pos (by omega), Int.toNat_natCast]
  refine bind_eq_ok.mpr ⟨column, hLocate, ?_⟩
  simp only [hColumn]
  rfl

/-- The recorded bounds of a column of integers, or zero for both if there are none. -/
def recordedRange (stats : TableStats) (column : Nat) : Int × Int :=
  ((stats.bounds.get? column).bind Bounds.integers?).getD (0, 0)

/-- A column that is not one of texts has integers for its bounds. -/
theorem getD_bounds (hKind : ∀ low high, stats.bounds.get? column ≠ some (.texts low high)) :
    (stats.bounds.get? column).getD (.integers 0 0) =
      .integers (stats.recordedRange column).1 (stats.recordedRange column).2 := by
  unfold recordedRange
  cases hBounds : stats.bounds.get? column with
  | none => rfl
  | some bounds =>
    cases bounds with
    | integers low high => rfl
    | texts low high => exact absurd hBounds (hKind low high)

theorem afterScan_of_read (hRead : read.failure = none) (id : Int) {β : Type}
    (filled : Outcome β) : afterScan id read filled = filled := by
  rw [afterScan, hRead]
  cases filled <;> rfl

theorem tell_map {α β : Type} (events : List Event) (x : Outcome α) (f : α → β) :
    (do Traced.tell events; return f (← (liftM x : Traced α))) =
      (⟨events, x.map f⟩ : Traced β) := by
  cases x with
  | error e =>
    show (⟨events ++ [], _⟩ : Traced β) = _
    rw [List.append_nil]
    rfl
  | ok a =>
    show (⟨events ++ [], _⟩ : Traced β) = _
    rw [List.append_nil]
    rfl

/-- The histogram of an integer column has the recorded range. -/
theorem columnHistogram_of_integer (hRead : read.failure = none)
    (hType : stats.schema.columnType (.position column) = .ok .integer)
    (hKind : ∀ low high, stats.bounds.get? column ≠ some (.texts low high)) :
    stats.columnHistogram read column =
      match (create stats.buckets (stats.recordedRange column).1 (stats.recordedRange column).2 :
          Outcome (Histogram Binary64)) with
      | .error e => ⟨[], .error e⟩
      | .ok start =>
        let filled := fillNumeric column
          (.integers (stats.recordedRange column).1 (stats.recordedRange column).2) start read.rows
        ⟨filled.1.map fun cell => .warning (.staleRow cell stats.table),
          filled.2.map .numeric⟩ := by
  rw [columnHistogram, hType]
  simp only [afterScan_of_read hRead, getD_bounds hKind, emptyHistogram]
  show Traced.andThen (.ofOutcome (create stats.buckets (stats.recordedRange column).1
    (stats.recordedRange column).2)) _ = _
  cases hCreate : (create stats.buckets (stats.recordedRange column).1
      (stats.recordedRange column).2 : Outcome (Histogram Binary64)) with
  | error e => rfl
  | ok start =>
    exact tell_map _ (fillNumeric column _ start read.rows).2 ColumnHistogram.numeric

theorem columnHistogram_of_string (hRead : read.failure = none)
    (hType : stats.schema.columnType (.position column) = .ok .string) :
    stats.columnHistogram read column =
      match (TextHistogram.create stats.buckets : Outcome (TextHistogram Binary64)) with
      | .error e => ⟨[], .error e⟩
      | .ok start => ⟨[], (fillTextual column start read.rows).map .textual⟩ := by
  rw [columnHistogram, hType]
  simp only [afterScan_of_read hRead]
  show Traced.andThen (.ofOutcome (TextHistogram.create stats.buckets)) _ = _
  cases hCreate : (TextHistogram.create stats.buckets : Outcome (TextHistogram Binary64)) with
  | error e => rfl
  | ok start => exact tell_map [] (fillTextual column start read.rows) ColumnHistogram.textual

end TableStats

end JoinPlanner
