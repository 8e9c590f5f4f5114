import JoinPlanner.Proofs.Catalog.History
import JoinPlanner.Proofs.Histogram.Texts
import JoinPlanner.Proofs.Statistics.FilledColumns

/-!
# JoinPlanner — histograms of columns

A histogram of an integer column has the range that was recorded when the statistics were
taken, and the values that the table has when it is built. Rows may have come in between: those
whose values are outside of the range are left out with a warning each, and all others have
a bucket, unless a number leaves the range of doubles. Every text has a bucket.

* `getElem?_afterAll`  — the rows of a table that was not registered again.
* `Measurable`         — no distance of values is beyond the doubles.
* `CountsRange`, `CountsTexts` — what the histogram of a column counts.
* `buildsHistograms_of_take` — the statement about all tables, statistics and later rows.
* `columnHistogram_longestDistance` — a single bucket can be too wide though no distance is.
-/

namespace JoinPlanner

open Outcome Binary64

-- ---------------------------------------------------------------------------
-- Rows
-- ---------------------------------------------------------------------------

/-- A cell holds what its column is meant to hold. -/
def Cell.Suits : Cell → Column → Prop
  | .int _, c => c.type = .integer
  | .text _, c => c.type = .string

instance (cell : Cell) (c : Column) : Decidable (cell.Suits c) :=
  match cell with
  | .int _ => inferInstanceAs (Decidable (_ = _))
  | .text _ => inferInstanceAs (Decidable (_ = _))

/-- A row has a suitable cell for every column. -/
def Schema.Types (schema : Schema) (row : Row) : Prop :=
  List.Forall₂ Cell.Suits row schema.columns

instance (schema : Schema) (row : Row) : Decidable (schema.Types row) :=
  inferInstanceAs (Decidable (List.Forall₂ _ _ _))

theorem Schema.Types.exists_cell {schema : Schema} {row : Row} (h : schema.Types row)
    {column : Nat} {c : Column} (hColumn : schema.columns[column]? = some c) :
    ∃ cell, row[column]? = some cell ∧ cell.Suits c := by
  obtain ⟨hLt, rfl⟩ := List.getElem?_eq_some_iff.mp hColumn
  have hRow : column < row.length := List.Forall₂.length_eq h ▸ hLt
  exact ⟨row[column], List.getElem?_eq_getElem hRow, List.Forall₂.get h hRow hLt⟩

/-- The column holds texts. -/
def Schema.IsText (schema : Schema) (column : Nat) : Prop :=
  ∃ c, schema.columns[column]? = some c ∧ c.type = .string

section Rows

variable {schema : Schema} {rows : List Row} {column : Nat}

theorem map_int?_of_types (hTyped : ∀ row ∈ rows, schema.Types row)
    (hColumn : schema.IsInteger column) :
    rows.map (fun row => row.int? column) = (integersOf rows column).map some := by
  obtain ⟨c, hColumn, hType⟩ := hColumn
  induction rows with
  | nil => rfl
  | cons row rest ih =>
    obtain ⟨hRow, hRest⟩ := List.forall_mem_cons.mp hTyped
    obtain ⟨cell, hCell, hSuits⟩ := hRow.exists_cell hColumn
    cases cell with
    | text s => cases hType.symm.trans hSuits
    | int n =>
      have hInt : row.int? column = some n := by rw [Row.int?, hCell]
      simp only [integersOf, List.map_cons, List.filterMap_cons, ih hRest, hInt]

theorem map_text_of_types (hTyped : ∀ row ∈ rows, schema.Types row)
    (hColumn : schema.IsText column) :
    rows.map (fun row => row.text column) = (textsOf rows column).map .ok := by
  obtain ⟨c, hColumn, hType⟩ := hColumn
  induction rows with
  | nil => rfl
  | cons row rest ih =>
    obtain ⟨hRow, hRest⟩ := List.forall_mem_cons.mp hTyped
    obtain ⟨cell, hCell, hSuits⟩ := hRow.exists_cell hColumn
    cases cell with
    | int n => cases hType.symm.trans hSuits
    | text s =>
      have hText : row.text column = .ok s := by rw [Row.text, hCell]
      simp only [textsOf, List.map_cons, List.filterMap_cons, ih hRest, hText, Except.toOption]

end Rows

/-- A table that is not registered again takes up the rows that it accepts. -/
theorem getElem?_afterAll {catalog : Catalog} (hReachable : catalog.Reachable) {id : Nat}
    {t : Table} (hTable : catalog.tables[id]? = some t) {changes : List Change}
    (hKept : ∀ change ∈ changes, change.registers? ≠ some t.name) :
    (catalog.afterAll changes).tables[id]? =
      some { t with rows := t.rows ++ acceptedRows t.name t.schema changes } := by
  induction changes generalizing catalog t with
  | nil =>
    rw [acceptedRows, List.flatMap_nil, List.append_nil]
    exact hTable
  | cons change rest ih =>
    obtain ⟨hFirst, hRest⟩ := List.forall_mem_cons.mp hKept
    have hNext := Change.getElem?_apply_of_kept hReachable.nodup_names hTable hFirst
    have hAll := ih (Change.reachable_apply hReachable change) hNext hRest
    rw [acceptedRows, List.flatMap_cons, ← List.append_assoc]
    exact hAll

/-- What statistics keep of their table and of the wishes of their user. -/
theorem fields_of_take {catalog : Catalog} {id : Nat} {t : Table} {options : StatsOptions}
    {serial : Nat} {stats : TableStats} (hTable : catalog.tables[id]? = some t)
    (hTake : TableStats.take catalog options serial id = .ok stats) :
    stats.table = id ∧ stats.buckets = options.buckets ∧ stats.schema = t.schema ∧
      stats.tuples = t.rows.length ∧ columnBounds t.schema t.rows = .ok stats.bounds := by
  rw [TableStats.take, table_of_getElem? hTable] at hTake
  obtain ⟨_, hSame, hTake⟩ := bind_eq_ok.mp hTake
  cases hSame
  obtain ⟨pages, -, hTake⟩ := bind_eq_ok.mp hTake
  obtain ⟨bounds, hBounds, hTake⟩ := bind_eq_ok.mp hTake
  obtain ⟨hMade, hRead⟩ := afterScan_eq_ok_iff.mp hBounds
  rw [rows_of_scan hTable hRead] at hMade hTake
  rw [← pure_eq_ok.mp hTake]
  exact ⟨rfl, rfl, rfl, rfl, hMade⟩

-- ---------------------------------------------------------------------------
-- Ranges of integers
-- ---------------------------------------------------------------------------

/-- Neither a distance of two values nor the width of a single bucket is beyond the doubles. -/
structure Measurable (stats : TableStats) (rows : List Row) (column : Nat) : Prop where
  distances : ∀ x ∈ integersOf rows column, ∀ y ∈ integersOf rows column, Convertible (x - y)
  single : stats.buckets = 1 →
    Convertible ((stats.recordedRange column).2 - (stats.recordedRange column).1 + 1)

/-- The values between the recorded ends are added to a histogram, and there is a warning for
each of the others, in their order. -/
structure HoldsRange (stats : TableStats) (rows : List Row) (column : Nat)
    (built : Traced ColumnHistogram) (h : Histogram Binary64) : Prop where
  filled : ∃ start, Histogram.create stats.buckets (stats.recordedRange column).1
      (stats.recordedRange column).2 = .ok start ∧
    start.addAll ((integersOf rows column).filter (inRange (stats.recordedRange column))) =
      (h, .ok ())
  outcome : built.outcome = .ok (.numeric h)
  total : h.total = (integersOf rows column).countP (inRange (stats.recordedRange column))
  warnings : built.events =
    ((integersOf rows column).filter fun v => !inRange (stats.recordedRange column) v).map
      fun v => .warning (.staleRow (.int v) stats.table)

/-- What the histogram of an integer column counts, and what it warns of. -/
structure CountsRange (stats : TableStats) (before rows : List Row) (column : Nat)
    (built : Traced ColumnHistogram) : Prop where
  /-- The range is that of the rows which the statistics were taken of; without a row there is
  none, and the histogram has zero for both ends. -/
  recorded : IsRange before column (stats.bounds.get? column)
  /-- The ends of the range are integers. -/
  integers : ∀ low high, stats.bounds.get? column ≠ some (.texts low high)
  each : rows.map (fun row => row.int? column) = (integersOf rows column).map some
  /-- Nothing but a number that leaves its range can fail: the range is one, and no value outside
  of it is added. -/
  safe : ∀ e, built.outcome = .error e → e.IsNumberError
  counts : Measurable stats rows column → ∃ h, HoldsRange stats rows column built h
  /-- Without other rows nothing is left out. -/
  fresh : rows = before → ∀ h, HoldsRange stats rows column built h →
    built.events = [] ∧ h.total = stats.tuples

section Ranges

open Histogram

variable {stats : TableStats} {before rows : List Row} {column : Nat} {read : Scan}

/-- Integers are not between texts. -/
theorem IsRange.ne_texts {range : Option Bounds} (hRange : IsRange rows column range)
    (hEach : rows.map (fun row => row.int? column) = (integersOf rows column).map some)
    (low high : String) : range ≠ some (.texts low high) := by
  rintro rfl
  obtain ⟨⟨row, hRow, hLow⟩, -⟩ := hRange
  have hMem : row.int? column ∈ (integersOf rows column).map some := by
    rw [← hEach]
    exact List.mem_map_of_mem hRow
  obtain ⟨v, -, hValue⟩ := List.mem_map.mp hMem
  cases hLow.symm.trans (Row.int?_eq_some_iff.mp hValue.symm)

variable (hKind : ∀ low high, stats.bounds.get? column ≠ some (.texts low high))
include hKind

/-- The ends of the recorded range are values of the column, or both zero if there is none. -/
theorem recordedRange_cases (hRange : IsRange before column (stats.bounds.get? column)) :
    (stats.recordedRange column = (0, 0) ∧ integersOf before column = []) ∨
      (stats.recordedRange column).1 ∈ integersOf before column ∧
        (stats.recordedRange column).2 ∈ integersOf before column ∧
        ∀ v ∈ integersOf before column, inRange (stats.recordedRange column) v := by
  unfold TableStats.recordedRange
  cases hBounds : stats.bounds.get? column with
  | none =>
    rw [hBounds] at hRange
    obtain rfl : before = [] := hRange
    exact Or.inl ⟨rfl, rfl⟩
  | some bounds =>
    rw [hBounds] at hRange
    cases bounds with
    | texts low high => exact absurd hBounds (hKind low high)
    | integers low high =>
      obtain ⟨⟨lowest, hLowest, hLow⟩, ⟨highest, hHighest, hHigh⟩, hBetween⟩ := hRange
      refine Or.inr ⟨List.mem_filterMap.mpr ⟨lowest, hLowest, Row.int?_eq_some_iff.mpr hLow⟩,
        List.mem_filterMap.mpr ⟨highest, hHighest, Row.int?_eq_some_iff.mpr hHigh⟩,
        fun v hv => ?_⟩
      obtain ⟨row, hRow, hValue⟩ := List.mem_filterMap.mp hv
      obtain ⟨cell, hCell, hCovers⟩ := hBetween row hRow
      cases hCell.symm.trans (Row.int?_eq_some_iff.mp hValue)
      exact decide_eq_true hCovers

theorem recordedRange_le (hRange : IsRange before column (stats.bounds.get? column)) :
    (stats.recordedRange column).1 ≤ (stats.recordedRange column).2 := by
  rcases recordedRange_cases hKind hRange with ⟨hZero, -⟩ | ⟨hLow, -, hBetween⟩
  · rw [hZero]
  · exact (of_decide_eq_true (hBetween _ hLow)).2

/-- The histogram of the recorded range takes every value between its ends. -/
theorem exists_filled (hRange : IsRange before column (stats.bounds.get? column))
    (hSubset : integersOf before column ⊆ integersOf rows column) (hBuckets : 1 ≤ stats.buckets)
    (hMeasurable : Measurable stats rows column) :
    ∃ start : Histogram Binary64, create stats.buckets (stats.recordedRange column).1
        (stats.recordedRange column).2 = .ok start ∧
      ∀ v ∈ integersOf rows column, inRange (stats.recordedRange column) v →
        ∃ i, start.locate v = .ok i := by
  have hOrder := recordedRange_le hKind hRange
  have hZero : Convertible 0 := convertible_of_le_wholeLimit (Nat.zero_le _)
  have hDistance : Convertible
      ((stats.recordedRange column).2 - (stats.recordedRange column).1) := by
    rcases recordedRange_cases hKind hRange with ⟨hNone, -⟩ | ⟨hLow, hHigh, -⟩
    · rw [hNone]
      exact hZero
    · exact hMeasurable.distances _ (hSubset hHigh) _ (hSubset hLow)
  obtain ⟨start, hCreate⟩ := exists_create hOrder hBuckets hDistance hMeasurable.single
  refine ⟨start, hCreate, fun v _ hIn => ?_⟩
  obtain ⟨-, -, width, -, rfl⟩ := create_eq_ok hCreate
  obtain ⟨hLow, hHigh⟩ := of_decide_eq_true hIn
  -- no value is farther from the lower end than the upper end is
  exact exists_locate (divides_of_create hCreate) ⟨hLow, hHigh⟩
    (hDistance.of_le (Int.sub_nonneg_of_le hLow) (Int.sub_le_sub_right hHigh _))

theorem holdsRange_of_measurable (hRead : read.failure = none)
    (hType : stats.schema.columnType (.position column) = .ok .integer)
    (hRange : IsRange before column (stats.bounds.get? column))
    (hEach : read.rows.map (fun row => row.int? column) = (integersOf read.rows column).map some)
    (hSubset : integersOf before column ⊆ integersOf read.rows column)
    (hBuckets : 1 ≤ stats.buckets) (hMeasurable : Measurable stats read.rows column) :
    ∃ h, HoldsRange stats read.rows column (stats.columnHistogram read column) h := by
  obtain ⟨start, hCreate, hLocated⟩ := exists_filled hKind hRange hSubset hBuckets hMeasurable
  have hFilled := TableStats.fillNumeric_eq hEach hLocated
  have hAdded : (start.addAll ((integersOf read.rows column).filter
      (inRange (stats.recordedRange column)))).2 = .ok () := by
    refine addAll_eq_ok_iff.mpr fun v hv => ?_
    obtain ⟨hMem, hIn⟩ := List.mem_filter.mp hv
    exact hLocated v hMem hIn
  have hBuilt := TableStats.columnHistogram_of_integer hRead hType hKind
  rw [hCreate] at hBuilt
  simp only [hFilled, Except.map] at hBuilt
  rw [List.map_map] at hBuilt
  refine ⟨_, ⟨start, hCreate, Prod.ext rfl hAdded⟩, congrArg Traced.outcome hBuilt, ?_,
    congrArg Traced.events hBuilt⟩
  rw [(tally_of_addAll hCreate (Prod.ext rfl hAdded)).total, List.countP_eq_length_filter]

/-- The range is one, and only its values are added. -/
theorem isNumberError_of_columnHistogram (hRead : read.failure = none)
    (hType : stats.schema.columnType (.position column) = .ok .integer)
    (hRange : IsRange before column (stats.bounds.get? column))
    (hEach : read.rows.map (fun row => row.int? column) = (integersOf read.rows column).map some)
    (hBuckets : 1 ≤ stats.buckets) {e : PlannerError}
    (hError : (stats.columnHistogram read column).outcome = .error e) : e.IsNumberError := by
  rw [TableStats.columnHistogram_of_integer hRead hType hKind] at hError
  cases hCreate : (create stats.buckets (stats.recordedRange column).1
      (stats.recordedRange column).2 : Outcome (Histogram Binary64)) with
  | error cause =>
    rw [hCreate] at hError
    cases hError
    exact isNumberError_of_create (recordedRange_le hKind hRange) hBuckets hCreate
  | ok start =>
    rw [hCreate] at hError
    have hDomain : (start.low, start.high) = stats.recordedRange column := by
      obtain ⟨-, -, width, -, rfl⟩ := create_eq_ok hCreate
      rfl
    refine TableStats.isNumberError_of_fillNumeric (divides_of_create hCreate) hDomain hEach ?_
    cases hFilled : (TableStats.fillNumeric column (.integers (stats.recordedRange column).1
        (stats.recordedRange column).2) start read.rows).2 with
    | error cause =>
      simp only [hFilled] at hError
      cases hError
      rfl
    | ok h =>
      simp only [hFilled] at hError
      cases hError

/-- All values that the statistics have seen are between the recorded ends. -/
theorem HoldsRange.fresh {built : Traced ColumnHistogram} {h : Histogram Binary64}
    (hHolds : HoldsRange stats before column built h)
    (hRange : IsRange before column (stats.bounds.get? column)) :
    built.events = [] ∧ h.total = (integersOf before column).length := by
  have hAll : ∀ v ∈ integersOf before column, inRange (stats.recordedRange column) v := by
    rcases recordedRange_cases hKind hRange with ⟨-, hNone⟩ | ⟨-, -, hBetween⟩
    · rw [hNone]
      exact fun v hv => absurd hv List.not_mem_nil
    · exact hBetween
  constructor
  · rw [hHolds.warnings, List.filter_eq_nil_iff.mpr fun v hv => by simp [hAll v hv]]
    rfl
  · rw [hHolds.total, List.countP_eq_length.mpr hAll]

end Ranges

-- ---------------------------------------------------------------------------
-- Texts
-- ---------------------------------------------------------------------------

/-- What the histogram of a text column counts; it warns of nothing. -/
structure CountsTexts (stats : TableStats) (rows : List Row) (column : Nat)
    (built : Traced ColumnHistogram) (h : TextHistogram Binary64) : Prop where
  each : rows.map (fun row => row.text column) = (textsOf rows column).map .ok
  filled : ∃ start, TextHistogram.create stats.buckets = .ok start ∧
    start.addAll (textsOf rows column) = (h, .ok ())
  outcome : built.outcome = .ok (.textual h)
  total : h.inner.total = rows.length
  silent : built.events = []

theorem countsTexts_of_rows {stats : TableStats} {read : Scan} {column : Nat}
    (hRead : read.failure = none)
    (hType : stats.schema.columnType (.position column) = .ok .string)
    (hEach : read.rows.map (fun row => row.text column) = (textsOf read.rows column).map .ok)
    (hBuckets : 1 ≤ stats.buckets) :
    ∃ h, CountsTexts stats read.rows column (stats.columnHistogram read column) h := by
  obtain ⟨start, hCreate, ⟨low, high, hInner⟩, hLocated⟩ := exists_filled_texts hBuckets
  have hFilled := TableStats.fillTextual_eq hEach fun text _ => hLocated text
  have hAdded := addAll_texts hLocated (textsOf read.rows column)
  have hBuilt := TableStats.columnHistogram_of_string hRead hType
  rw [hCreate] at hBuilt
  simp only [hFilled, Except.map] at hBuilt
  have hLength := congrArg List.length hEach
  rw [List.length_map, List.length_map] at hLength
  refine ⟨_, hEach, ⟨start, hCreate, Prod.ext rfl hAdded⟩, congrArg Traced.outcome hBuilt, ?_,
    congrArg Traced.events hBuilt⟩
  show (start.inner.addAll _).1.total = _
  rw [(Histogram.tally_of_addAll hInner (Prod.ext rfl hAdded)).total, List.length_map, hLength]

-- ---------------------------------------------------------------------------
-- The statement
-- ---------------------------------------------------------------------------

/-- What the histograms of the columns of a table count, for statistics that were taken when the
table had fewer rows. -/
structure BuildsHistograms (stats : TableStats) (schema : Schema) (before : List Row)
    (read : Scan) : Prop where
  numeric : ∀ column, schema.IsInteger column →
    CountsRange stats before read.rows column (stats.columnHistogram read column)
  textual : ∀ column, schema.IsText column →
    ∃ h, CountsTexts stats read.rows column (stats.columnHistogram read column) h

/-- Histograms are built of what a table holds, whatever has changed in the catalog since its
statistics were taken, as long as the table was not registered again. -/
theorem buildsHistograms_of_take {catalog : Catalog} {id serial : Nat} {t : Table}
    {options : StatsOptions} {stats : TableStats} {changes : List Change}
    (hReachable : catalog.Reachable) (hTable : catalog.tables[id]? = some t)
    (hTake : TableStats.take catalog options serial id = .ok stats)
    (hBuckets : 1 ≤ options.buckets)
    (hKept : ∀ change ∈ changes, change.registers? ≠ some t.name)
    (hTyped : ∀ row ∈ t.rows ++ acceptedRows t.name t.schema changes, t.schema.Types row)
    (hRead : (stats.reread (catalog.afterAll changes)).failure = none) :
    (stats.reread (catalog.afterAll changes)).rows =
        t.rows ++ acceptedRows t.name t.schema changes ∧
      BuildsHistograms stats t.schema t.rows (stats.reread (catalog.afterAll changes)) := by
  obtain ⟨hId, hCount, hSchema, hTuples, hBounds⟩ := fields_of_take hTable hTake
  have hRows : (stats.reread (catalog.afterAll changes)).rows =
      t.rows ++ acceptedRows t.name t.schema changes := by
    rw [TableStats.reread, hId] at hRead ⊢
    exact rows_of_scan (getElem?_afterAll hReachable hTable hKept) hRead
  rw [← hRows] at hTyped
  have hRecorded : Recorded t.schema t.rows stats.bounds := by
    rcases columnBounds_cases (hReachable.fits t (List.mem_of_getElem? hTable)) with
      ⟨bounds, hOk, hRecorded⟩ | ⟨e, hError, -⟩
    · rw [Except.ok.inj (hBounds.symm.trans hOk)]
      exact hRecorded
    · cases hBounds.symm.trans hError
  have hType : ∀ {column : Nat} {c : Column}, t.schema.columns[column]? = some c →
      stats.schema.columnType (.position column) = .ok c.type := by
    intro column c hColumn
    rw [hSchema]
    exact TableStats.columnType_position hColumn
  refine ⟨hRows, fun column hColumn => ?_, fun column hColumn => ?_⟩
  · have hEach := map_int?_of_types hTyped hColumn
    have hRange := hRecorded.range column hColumn
    have hKind := hRange.ne_texts (map_int?_of_types (fun row hRow => hTyped row (hRows ▸
      List.mem_append_left _ hRow)) hColumn)
    have hSubset : integersOf t.rows column ⊆
        integersOf (stats.reread (catalog.afterAll changes)).rows column := by
      rw [hRows, integersOf, integersOf, List.filterMap_append]
      exact List.subset_append_left _ _
    obtain ⟨c, hColumn, hInteger⟩ := hColumn
    have hType := hInteger ▸ hType hColumn
    refine ⟨hRange, hKind, hEach, fun e hError => ?_, fun hMeasurable => ?_, fun hSame h hHolds => ?_⟩
    · exact isNumberError_of_columnHistogram hKind hRead hType hRange hEach (hCount ▸ hBuckets) hError
    · exact holdsRange_of_measurable hKind hRead hType hRange hEach hSubset (hCount ▸ hBuckets)
        hMeasurable
    · have hLength := congrArg List.length hEach
      rw [List.length_map, List.length_map] at hLength
      rw [hSame] at hHolds hLength
      obtain ⟨hSilent, hTotal⟩ := hHolds.fresh hKind hRange
      exact ⟨hSilent, by rw [hTotal, ← hLength, hTuples]⟩
  · have hEach := map_text_of_types hTyped hColumn
    obtain ⟨c, hColumn, hText⟩ := hColumn
    exact countsTexts_of_rows hRead (hText ▸ hType hColumn) hEach (hCount ▸ hBuckets)

/-- A table with a column of integers and one of texts. -/
def sampleSchema : Schema := ⟨[⟨"number", .integer⟩, ⟨"text", .string⟩]⟩

/-- Rows that come later, the second one outside of the range of the first rows. -/
def sampleInsertions : List Change :=
  [.append "t" [[.int 7, .text "b"], [.int 20, .text ""]], .append "u" [[.int 0]]]

/-- The statement at two rows, and two more of which one is stale. -/
theorem buildsHistograms_of_take_sample :
    let catalog := (Catalog.empty 4096).afterAll
      [.register "t" sampleSchema "" [[.int 5, .text "a"], [.int 9, .text "xyzzy"]]]
    ∃ stats, TableStats.take catalog { buckets := 4 } 0 (0 : Nat) = .ok stats ∧
      (stats.reread (catalog.afterAll sampleInsertions)).rows.length = 4 ∧
      BuildsHistograms stats sampleSchema [[.int 5, .text "a"], [.int 9, .text "xyzzy"]]
        (stats.reread (catalog.afterAll sampleInsertions)) := by
  intro catalog
  have hTaken : ((TableStats.take catalog { buckets := 4 } 0 (0 : Nat)).toOption.any fun stats =>
      (stats.reread (catalog.afterAll sampleInsertions)).failure == none) = true := by
    decide +kernel
  obtain ⟨stats, hOk, hRead⟩ := (Option.any_eq_true _ _).mp hTaken
  have hTake := eq_ok_of_toOption hOk
  obtain ⟨hRows, hBuilds⟩ := buildsHistograms_of_take
    (t := ⟨"t", sampleSchema, "", [[.int 5, .text "a"], [.int 9, .text "xyzzy"]]⟩)
    (reachable_afterAll 4096 _) rfl hTake (by decide) (by decide) (by decide) (eq_of_beq hRead)
  exact ⟨stats, hTake, by rw [hRows]; rfl, hBuilds⟩

/-- The largest distance that is convertible. -/
def longestDistance : Int := 2 ^ 1024 - 2 ^ 970 - 1

/-- Two values whose distance is convertible, for which a single bucket is too wide. -/
theorem columnHistogram_longestDistance :
    let catalog := (Catalog.empty 4096).afterAll
      [.register "t" ⟨[⟨"number", .integer⟩]⟩ "" [[.int 0], [.int longestDistance]]]
    (∀ x ∈ [0, longestDistance], ∀ y ∈ [0, longestDistance], Convertible (x - y)) ∧
      ∃ stats, TableStats.take catalog { buckets := 1 } 0 0 = .ok stats ∧
        integersOf (stats.reread catalog).rows 0 = [0, longestDistance] ∧
        (stats.columnHistogram (stats.reread catalog) 0).outcome.told? =
          some (.overflow, NumberError.quotientTooLarge.message) := by
  intro catalog
  have hTaken : ((TableStats.take catalog { buckets := 1 } 0 0).toOption.any fun stats =>
      integersOf (stats.reread catalog).rows 0 == [0, longestDistance] &&
        decide ((stats.columnHistogram (stats.reread catalog) 0).outcome.told? =
          some (.overflow, NumberError.quotientTooLarge.message))) = true := by
    decide +kernel
  obtain ⟨stats, hOk, hBoth⟩ := (Option.any_eq_true _ _).mp hTaken
  obtain ⟨hValues, hTold⟩ := Bool.and_eq_true_iff.mp hBoth
  refine ⟨?_, stats, eq_ok_of_toOption hOk, eq_of_beq hValues, of_decide_eq_true hTold⟩
  have hAll : ∀ x ∈ [0, longestDistance], ∀ y ∈ [0, longestDistance],
      (ofInt (x - y)).toOption.isSome = true := by
    decide +kernel
  intro x hx y hy
  have hSome := hAll x hx y hy
  cases hDistance : ofInt (x - y) with
  | ok d => exact ⟨d, hDistance⟩
  | error e =>
    rw [hDistance] at hSome
    cases hSome

end JoinPlanner
