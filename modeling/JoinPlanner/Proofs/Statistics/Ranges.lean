import JoinPlanner.Proofs.Catalog.Changes
import JoinPlanner.Proofs.Outcome
import JoinPlanner.Statistics.Bounds

/-!
# JoinPlanner — the ranges of integer columns

The bounds of a column are found cell by cell. They are attained by cells of the column and no
cell is outside of them, as long as all cells are of one kind. Nothing refuses a row with a text
in an integer column, so a column may also hold texts only, or cells of both kinds: the first
cell then that cannot be compared with those before it ends the search with an error.

* `Bounds.Covers`, `IsRange` — the least and the largest cell of a column.
* `Bounds.widen_cases` — what one more cell does to bounds.
* `Mismatch`, `FirstMismatch` — cells that differ from the first one of their column.
* `ensures_widenColumn`, `ensures_widenRow` — one more column of a row, and one more row.
* `columnBounds_cases` — the bounds are the ranges of the columns, or there is a first mismatch.
-/

namespace JoinPlanner

open Outcome

-- ---------------------------------------------------------------------------
-- One more cell
-- ---------------------------------------------------------------------------

namespace Bounds

/-- The cell is of the kind of the bounds, and it lies between them. -/
def Covers : Bounds → Cell → Prop
  | integers low high, .int n => low ≤ n ∧ n ≤ high
  | texts low high, .text s => ¬ s < low ∧ ¬ high < s
  | _, _ => False

@[simp] theorem low_ofCell (cell : Cell) : (ofCell cell).low = cell := by cases cell <;> rfl

@[simp] theorem high_ofCell (cell : Cell) : (ofCell cell).high = cell := by cases cell <;> rfl

theorem covers_ofCell (cell : Cell) : (ofCell cell).Covers cell := by
  cases cell with
  | int n => exact ⟨Int.le_refl n, Int.le_refl n⟩
  | text s => exact ⟨String.lt_irrefl s, String.lt_irrefl s⟩

/-- All cells between some bounds are of one kind. -/
theorem Covers.typeName_eq {bounds : Bounds} {cell : Cell} (h : bounds.Covers cell) :
    cell.typeName = bounds.low.typeName := by
  cases bounds <;> cases cell <;> first | rfl | exact h.elim

/-- Bounds are replaced by others that a cell and all cells before it lie between. -/
structure Widens (before : Bounds) (cell : Cell) (after : Bounds) : Prop where
  low : after.low = before.low ∨ after.low = cell
  high : after.high = before.high ∨ after.high = cell
  cell : after.Covers cell
  others : ∀ other, before.Covers other → after.Covers other

theorem widens_integers (low high n : Int) :
    Widens (integers low high) (.int n) (integers (min low n) (max high n)) := by
  refine ⟨?_, ?_, ⟨Int.min_le_right low n, Int.le_max_right high n⟩, fun other hOther => ?_⟩
  · rcases Int.le_total low n with h | h
    · exact Or.inl (congrArg Cell.int (Int.min_eq_left h))
    · exact Or.inr (congrArg Cell.int (Int.min_eq_right h))
  · rcases Int.le_total high n with h | h
    · exact Or.inr (congrArg Cell.int (Int.max_eq_right h))
    · exact Or.inl (congrArg Cell.int (Int.max_eq_left h))
  · cases other with
    | int m =>
      obtain ⟨hLow, hHigh⟩ := hOther
      exact ⟨Int.le_trans (Int.min_le_left low n) hLow,
        Int.le_trans hHigh (Int.le_max_left high n)⟩
    | text s => exact hOther.elim

theorem widens_texts (low high s : String) :
    Widens (texts low high) (.text s)
      (texts (if s < low then s else low) (if high < s then s else high)) := by
  refine ⟨?_, ?_, ?_, fun other hOther => ?_⟩
  · by_cases h : s < low <;> simp [Bounds.low, h]
  · by_cases h : high < s <;> simp [Bounds.high, h]
  · constructor
    · split
      · exact String.lt_irrefl s
      · assumption
    · split
      · exact String.lt_irrefl s
      · assumption
  · cases other with
    | int n => exact hOther.elim
    | text t =>
      obtain ⟨hLow, hHigh⟩ := hOther
      constructor
      · split
        · exact fun h => hLow (String.lt_trans h ‹_›)
        · exact hLow
      · split
        · exact fun h => hHigh (String.lt_trans ‹_› h)
        · exact hHigh

/-- A cell of the same kind widens the bounds, any other one has no order with them. -/
theorem widen_cases (bounds : Bounds) (cell : Cell) :
    (∃ wider, bounds.widen cell = .ok wider ∧ Widens bounds cell wider) ∨
    cell.typeName ≠ bounds.low.typeName ∧
      bounds.widen cell = .error (.incomparable "<" cell.typeName bounds.low.typeName) := by
  cases bounds with
  | integers low high =>
    cases cell with
    | int n => exact Or.inl ⟨_, rfl, widens_integers low high n⟩
    | text s => exact Or.inr ⟨by simp [Cell.typeName, Bounds.low], rfl⟩
  | texts low high =>
    cases cell with
    | int n => exact Or.inr ⟨by simp [Cell.typeName, Bounds.low], rfl⟩
    | text s => exact Or.inl ⟨_, rfl, widens_texts low high s⟩

end Bounds

-- ---------------------------------------------------------------------------
-- Ranges
-- ---------------------------------------------------------------------------

/-- The least and the largest cell in a column of some rows, whose cells are all of one kind;
none if there is no row. -/
def IsRange (rows : List Row) (column : Nat) : Option Bounds → Prop
  | none => rows = []
  | some bounds =>
    (∃ row ∈ rows, row[column]? = some bounds.low) ∧
      (∃ row ∈ rows, row[column]? = some bounds.high) ∧
      ∀ row ∈ rows, ∃ cell, row[column]? = some cell ∧ bounds.Covers cell

section Ranges

variable {rows : List Row} {row : Row} {column : Nat} {cell : Cell}

theorem isRange_ofCell (hCell : row[column]? = some cell) :
    IsRange [row] column (some (.ofCell cell)) := by
  refine ⟨⟨row, List.mem_singleton_self row, ?_⟩, ⟨row, List.mem_singleton_self row, ?_⟩,
    fun other hOther => ?_⟩
  · rw [Bounds.low_ofCell, hCell]
  · rw [Bounds.high_ofCell, hCell]
  · obtain rfl := List.mem_singleton.mp hOther
    exact ⟨cell, hCell, Bounds.covers_ofCell cell⟩

/-- Wider bounds are the range of one more row. -/
theorem IsRange.concat {before after : Bounds} (h : IsRange rows column (some before))
    (hCell : row[column]? = some cell) (hWidens : before.Widens cell after) :
    IsRange (rows ++ [row]) column (some after) := by
  obtain ⟨⟨lowest, hLowest, hLow⟩, ⟨highest, hHighest, hHigh⟩, hCovers⟩ := h
  have hLast : row ∈ rows ++ [row] := List.mem_append_right _ (List.mem_singleton_self row)
  refine ⟨?_, ?_, fun other hOther => ?_⟩
  · rcases hWidens.low with hSame | hNew
    · exact ⟨lowest, List.mem_append_left _ hLowest, hSame ▸ hLow⟩
    · exact ⟨row, hLast, hNew ▸ hCell⟩
  · rcases hWidens.high with hSame | hNew
    · exact ⟨highest, List.mem_append_left _ hHighest, hSame ▸ hHigh⟩
    · exact ⟨row, hLast, hNew ▸ hCell⟩
  · rcases List.mem_append.mp hOther with hBefore | hThis
    · obtain ⟨found, hFound, hBetween⟩ := hCovers other hBefore
      exact ⟨found, hFound, hWidens.others found hBetween⟩
    · obtain rfl := List.mem_singleton.mp hThis
      exact ⟨cell, hCell, hWidens.cell⟩

end Ranges

-- ---------------------------------------------------------------------------
-- Mismatches
-- ---------------------------------------------------------------------------

/-- The type of the cell in a column of the row at some place. -/
def typeAt? (rows : List Row) (place column : Nat) : Option String :=
  (rows[place]?.bind fun row => row[column]?).map Cell.typeName

/-- The column holds integers. -/
def Schema.IsInteger (schema : Schema) (column : Nat) : Prop :=
  ∃ c, schema.columns[column]? = some c ∧ c.type = .integer

/-- A cell of an integer column is of another type than the first cell of the column. -/
structure Mismatch (schema : Schema) (rows : List Row) (place column : Nat)
    (found expected : String) : Prop where
  integer : schema.IsInteger column
  type : typeAt? rows place column = some found
  firstType : typeAt? rows 0 column = some expected
  differs : found ≠ expected

/-- The complaint about the first mismatch, row by row and in a row from left to right. -/
inductive FirstMismatch (schema : Schema) (rows : List Row) : PlannerError → Prop
  | intro {place column : Nat} {found expected : String}
      (mismatch : Mismatch schema rows place column found expected)
      (first : ∀ place' column' found' expected',
        Mismatch schema rows place' column' found' expected' →
          place < place' ∨ place = place' ∧ column ≤ column') :
      FirstMismatch schema rows (.incomparable "<" found expected)

/-- The cells of each integer column are of one type. -/
def Schema.Uniform (schema : Schema) (rows : List Row) : Prop :=
  ∀ place column found expected, ¬ Mismatch schema rows place column found expected

section Mismatches

variable {schema : Schema} {rows done rest : List Row} {row : Row} {place column : Nat}

theorem FirstMismatch.not_uniform {e : PlannerError} (h : FirstMismatch schema rows e) :
    ¬ schema.Uniform rows := by
  cases h with
  | intro mismatch _ => exact fun hUniform => hUniform _ _ _ _ mismatch

/-- There is only one first mismatch. -/
theorem FirstMismatch.unique {e e' : PlannerError} (h : FirstMismatch schema rows e)
    (h' : FirstMismatch schema rows e') : e = e' := by
  cases h with
  | @intro place column _ _ mismatch first =>
    cases h' with
    | @intro place' column' _ _ mismatch' first' =>
      have hBefore := first _ _ _ _ mismatch'
      have hAfter := first' _ _ _ _ mismatch
      obtain ⟨rfl, rfl⟩ : place = place' ∧ column = column' := by omega
      rw [Option.some.inj (mismatch.type.symm.trans mismatch'.type),
        Option.some.inj (mismatch.firstType.symm.trans mismatch'.firstType)]

theorem typeAt?_append (hPlace : place < rows.length) (more : List Row) (column : Nat) :
    typeAt? (rows ++ more) place column = typeAt? rows place column := by
  rw [typeAt?, List.getElem?_append_left hPlace, ← typeAt?]

theorem typeAt?_of_split {cell : Cell} (hCell : row[column]? = some cell) :
    typeAt? (done ++ row :: rest) done.length column = some cell.typeName := by
  rw [typeAt?, List.getElem?_append_right (Nat.le_refl _), Nat.sub_self]
  simp [hCell]

/-- A column with a range has cells of one type. -/
theorem IsRange.typeAt?_eq {bounds : Bounds} (h : IsRange rows column (some bounds))
    (hPlace : place < rows.length) : typeAt? rows place column = some bounds.low.typeName := by
  obtain ⟨-, -, hCovers⟩ := h
  obtain ⟨cell, hCell, hBetween⟩ := hCovers rows[place] (List.getElem_mem hPlace)
  rw [typeAt?, List.getElem?_eq_getElem hPlace, Option.bind_some, hCell, Option.map_some,
    hBetween.typeName_eq]

theorem lt_length_of_typeAt? {found : String} (h : typeAt? rows place column = some found) :
    place < rows.length := by
  by_contra hBeyond
  rw [typeAt?, List.getElem?_eq_none (Nat.le_of_not_lt hBeyond)] at h
  cases h

theorem IsRange.not_mismatch {range : Option Bounds} (h : IsRange rows column range)
    {found expected : String} : ¬ Mismatch schema rows place column found expected := by
  intro hMismatch
  have hPlace := lt_length_of_typeAt? hMismatch.type
  have hFirst := lt_length_of_typeAt? hMismatch.firstType
  cases range with
  | none =>
    rw [show rows = [] from h] at hPlace
    exact Nat.not_lt_zero _ hPlace
  | some bounds =>
    have hFound := Option.some.inj (hMismatch.type.symm.trans (h.typeAt?_eq hPlace))
    have hExpected := Option.some.inj (hMismatch.firstType.symm.trans (h.typeAt?_eq hFirst))
    exact hMismatch.differs (hFound.trans hExpected.symm)

/-- A mismatch at one of the first rows is one among these. -/
theorem Mismatch.of_append {more : List Row} {found expected : String}
    (h : Mismatch schema (rows ++ more) place column found expected)
    (hPlace : place < rows.length) : Mismatch schema rows place column found expected :=
  ⟨h.integer, typeAt?_append hPlace more column ▸ h.type,
    typeAt?_append (Nat.zero_lt_of_lt hPlace) more column ▸ h.firstType, h.differs⟩

end Mismatches

-- ---------------------------------------------------------------------------
-- One more row
-- ---------------------------------------------------------------------------

theorem Schema.mem_integerColumns {schema : Schema} {column : Nat} :
    column ∈ schema.integerColumns ↔ schema.IsInteger column := by
  simp only [integerColumns, List.mem_map, List.mem_filter, Prod.exists,
    List.mem_zipIdx_iff_getElem?, beq_iff_eq, IsInteger]
  constructor
  · rintro ⟨c, i, ⟨hColumn, hType⟩, rfl⟩
    exact ⟨c, hColumn, hType⟩
  · rintro ⟨c, hColumn, hType⟩
    exact ⟨c, column, ⟨hColumn, hType⟩, rfl⟩

/-- The integer columns come from left to right. -/
theorem Schema.pairwise_integerColumns (schema : Schema) :
    schema.integerColumns.Pairwise (· < ·) := by
  have hAll : (schema.columns.zipIdx.map Prod.snd).Pairwise (· < ·) := by
    rw [List.zipIdx_map_snd]
    exact List.pairwise_lt_range'
  exact hAll.sublist (List.filter_sublist.map Prod.snd)

/-- The bounds of columns are the ranges of the integer columns. -/
structure Recorded (schema : Schema) (rows : List Row) (bounds : Association Nat Bounds) :
    Prop where
  range : ∀ column, schema.IsInteger column → IsRange rows column (bounds.get? column)
  other : ∀ column, ¬ schema.IsInteger column → bounds.get? column = none

theorem Recorded.uniform {schema : Schema} {rows : List Row} {bounds : Association Nat Bounds}
    (h : Recorded schema rows bounds) : schema.Uniform rows :=
  fun _ column _ _ hMismatch => (h.range column hMismatch.integer).not_mismatch hMismatch

/-- Some columns have got the ranges of one more row, the others still have those they had. -/
structure HalfRecorded (done : List Row) (row : Row) (before after : Association Nat Bounds)
    (columns : List Nat) : Prop where
  reached : ∀ column ∈ columns, IsRange (done ++ [row]) column (after.get? column)
  kept : ∀ column, column ∉ columns → after.get? column = before.get? column

section Rows

variable {schema : Schema} {rows done rest : List Row} {row : Row} {column : Nat} {cell : Cell}
  {before after : Association Nat Bounds}

/-- A column takes up a cell, unless this is of another type than the first one. -/
theorem widenColumn_cases (hCell : row[column]? = some cell)
    (hRange : IsRange done column (after.get? column)) :
    (∃ range, widenColumn row after column = .ok (after.put column range) ∧
      IsRange (done ++ [row]) column (some range)) ∨
    ∃ expected, typeAt? done 0 column = some expected ∧ cell.typeName ≠ expected ∧
      widenColumn row after column = .error (.incomparable "<" cell.typeName expected) := by
  have hRow : row.cell column = .ok cell := by rw [Row.cell, hCell]
  rw [widenColumn, hRow]
  cases hBounds : after.get? column with
  | none =>
    rw [hBounds] at hRange
    obtain rfl : done = [] := hRange
    exact Or.inl ⟨.ofCell cell, rfl, isRange_ofCell hCell⟩
  | some bounds =>
    rw [hBounds] at hRange
    rcases bounds.widen_cases cell with ⟨wider, hWider, hWidens⟩ | ⟨hDiffers, hError⟩
    · refine Or.inl ⟨wider, ?_, hRange.concat hCell hWidens⟩
      exact bind_eq_ok.mpr ⟨cell, rfl, bind_eq_ok.mpr ⟨wider, hWider, rfl⟩⟩
    · obtain ⟨⟨lowest, hLowest, -⟩, -⟩ := id hRange
      refine Or.inr ⟨_, hRange.typeAt?_eq (List.length_pos_of_mem hLowest), hDiffers, ?_⟩
      exact bind_eq_error.mpr (Or.inr ⟨cell, rfl, bind_eq_error.mpr (Or.inl hError)⟩)

/-- One more column has got its range. -/
theorem HalfRecorded.put {columns : List Nat} {range : Bounds}
    (h : HalfRecorded done row before after columns)
    (hRange : IsRange (done ++ [row]) column (some range)) :
    HalfRecorded done row before (after.put column range) (columns ++ [column]) := by
  constructor
  · intro other hReached
    rw [Association.get?_put]
    split
    · rename_i hSame
      exact eq_of_beq hSame ▸ hRange
    · rename_i hOther
      rcases List.mem_append.mp hReached with hBefore | hThis
      · exact h.reached other hBefore
      · exact absurd (beq_iff_eq.mpr (List.mem_singleton.mp hThis).symm) hOther
  · intro other hOther
    rw [List.mem_append, List.mem_singleton, not_or] at hOther
    rw [Association.get?_put, if_neg (by simpa using Ne.symm hOther.2), h.kept other hOther.1]

/-- The first cell of a row that a column cannot take up is the first mismatch. -/
theorem firstMismatch_of_columns {columns others : List Nat} {expected : String}
    (hColumns : schema.integerColumns = columns ++ column :: others)
    (hDone : Recorded schema done before) (hHalf : HalfRecorded done row before after columns)
    (hCell : row[column]? = some cell) (hExpected : typeAt? done 0 column = some expected)
    (hDiffers : cell.typeName ≠ expected) :
    FirstMismatch schema (done ++ row :: rest) (.incomparable "<" cell.typeName expected) := by
  have hFirst := lt_length_of_typeAt? hExpected
  have hInteger : schema.IsInteger column := by
    rw [← Schema.mem_integerColumns, hColumns]
    exact List.mem_append_right _ List.mem_cons_self
  refine .intro ⟨hInteger, typeAt?_of_split hCell, ?_, hDiffers⟩ fun place column' _ _ h => ?_
  · rw [typeAt?_append hFirst, hExpected]
  by_contra hEarlier
  have hSplit : done ++ row :: rest = (done ++ [row]) ++ rest := by simp
  rcases Nat.lt_trichotomy place done.length with hBefore | rfl | hAfter
  · exact (hDone.range column' h.integer).not_mismatch (h.of_append hBefore)
  · -- in this row, a column further to the left has already taken up its cell
    have hLeft : column' ∈ columns := by
      have hMem := Schema.mem_integerColumns.mpr h.integer
      have hOrder := schema.pairwise_integerColumns
      rw [hColumns] at hMem hOrder
      have hRight := (List.pairwise_cons.mp (List.pairwise_append.mp hOrder).2.1).1
      rcases List.mem_append.mp hMem with hLeft | hMem
      · exact hLeft
      · rcases List.mem_cons.mp hMem with rfl | hMem
        · omega
        · have := hRight column' hMem
          omega
    rw [hSplit] at h
    exact (hHalf.reached column' hLeft).not_mismatch (h.of_append (by simp))
  · omega

/-- One more column takes up its cell of a row, or this is the first mismatch of all rows. -/
theorem ensures_widenColumn {columns others : List Nat} (hFits : schema.Fits row)
    (hDone : Recorded schema done before)
    (hColumns : schema.integerColumns = columns ++ column :: others)
    (hHalf : HalfRecorded done row before after columns) :
    (widenColumn row after column).Ensures (FirstMismatch schema (done ++ row :: rest)) fun wider =>
      HalfRecorded done row before wider (columns ++ [column]) := by
  have hMem : column ∈ schema.integerColumns := by
    rw [hColumns]
    exact List.mem_append_right _ List.mem_cons_self
  have hInteger := Schema.mem_integerColumns.mp hMem
  have hNew : column ∉ columns := by
    have hOrder := schema.pairwise_integerColumns
    rw [hColumns] at hOrder
    intro hOld
    exact Nat.lt_irrefl _ ((List.pairwise_append.mp hOrder).2.2 _ hOld _ List.mem_cons_self)
  obtain ⟨c, hColumn, -⟩ := id hInteger
  have hWidth : column < row.length := hFits ▸ (List.getElem?_eq_some_iff.mp hColumn).1
  have hRange : IsRange done column (after.get? column) :=
    hHalf.kept column hNew ▸ hDone.range column hInteger
  rcases widenColumn_cases (List.getElem?_eq_getElem hWidth) hRange with
    ⟨range, hOk, hIs⟩ | ⟨expected, hExpected, hDiffers, hError⟩
  · rw [hOk]
    exact .ok (hHalf.put hIs)
  · rw [hError]
    exact .error (firstMismatch_of_columns hColumns hDone hHalf (List.getElem?_eq_getElem hWidth)
      hExpected hDiffers)

/-- One more row is recorded, or it has the first mismatch of all rows. -/
theorem ensures_widenRow (hFits : schema.Fits row) (hDone : Recorded schema done before) :
    (schema.integerColumns.foldlM (widenColumn row) before).Ensures
      (FirstMismatch schema (done ++ row :: rest)) (Recorded schema (done ++ [row])) := by
  have hAll : (schema.integerColumns.foldlM (widenColumn row) before).Ensures
      (FirstMismatch schema (done ++ row :: rest)) fun after =>
        HalfRecorded done row before after schema.integerColumns :=
    ensures_foldlM (M := fun columns after => HalfRecorded done row before after columns)
      ⟨fun column hColumn => absurd hColumn List.not_mem_nil, fun _ _ => rfl⟩
      fun _ _ _ _ hColumns hHalf => ensures_widenColumn hFits hDone hColumns hHalf
  refine hAll.mono fun after _ hHalf => ⟨fun column hInteger => ?_, fun column hOther => ?_⟩
  · exact hHalf.reached column (Schema.mem_integerColumns.mpr hInteger)
  · rw [hHalf.kept column (mt Schema.mem_integerColumns.mp hOther), hDone.other column hOther]

/-- The bounds of the columns are found, or there is a first mismatch. -/
theorem columnBounds_cases (hFits : ∀ row ∈ rows, schema.Fits row) :
    (∃ bounds, columnBounds schema rows = .ok bounds ∧ Recorded schema rows bounds) ∨
    ∃ e, columnBounds schema rows = .error e ∧ FirstMismatch schema rows e := by
  have hEnsures : (columnBounds schema rows).Ensures (FirstMismatch schema rows)
      (Recorded schema rows) := by
    refine ensures_foldlM (M := Recorded schema) ⟨fun _ _ => rfl, fun _ _ => rfl⟩
      fun done row rest before hSplit hDone => ?_
    subst hSplit
    exact ensures_widenRow (hFits row (List.mem_append_right _ List.mem_cons_self)) hDone
  cases hBounds : columnBounds schema rows with
  | ok bounds => exact Or.inl ⟨bounds, rfl, hEnsures.of_eq_ok hBounds⟩
  | error e => exact Or.inr ⟨e, rfl, hEnsures.of_eq_error hBounds⟩

end Rows

end JoinPlanner
