import JoinPlanner.Proofs.Statistics.Ranges
import JoinPlanner.Statistics.Table

/-!
# JoinPlanner — what statistics say of a table

The statistics of a table are taken in one scan. They count its rows, and the bounds of an
integer column are the least and the largest of its cells. If the rows do not fit on pages,
cannot all be read or cannot be compared with each other, there are no statistics, and the error
tells why: of the last two, whichever comes first while the rows are read one by one.

* `Summarizes`          — what the statistics of a table say.
* `ScanFails`, `TableFails` — why there are none.
* `take_cases`          — the statistics of a table are taken, or there is a reason why not.
-/

namespace JoinPlanner

open Outcome

/-- What the statistics of a table say. -/
structure Summarizes (catalog : Catalog) (id : Nat) (t : Table) (stats : TableStats) : Prop where
  table : stats.table = id
  pages : catalog.pagesFilled id = .ok stats.pages
  tuples : stats.tuples = t.rows.length
  /-- An integer column has the range of its cells. -/
  range : ∀ ref column, t.schema.locate ref = .ok column → t.schema.IsInteger column →
    ∃ range, stats.bounds? ref = .ok range ∧ IsRange t.rows column range
  noRange : ∀ ref column, t.schema.locate ref = .ok column → ¬ t.schema.IsInteger column →
    stats.bounds? ref = .ok none
  /-- Only an empty table has integer columns without a range. -/
  rangeless : ∀ ref column, t.schema.locate ref = .ok column → t.schema.IsInteger column →
    (stats.bounds? ref = .ok none ↔ t.rows = [])

/-- The rows of a table that are read before the reading breaks down, if it does. -/
def Table.rowsRead (t : Table) : Option Fault → List Row
  | some .onOpening => []
  | some (.after k) => t.rows.take k.toNat
  | some .atEnd | none => t.rows

theorem Table.mem_of_mem_rowsRead {t : Table} {fault : Option Fault} {row : Row}
    (h : row ∈ t.rowsRead fault) : row ∈ t.rows := by
  rcases fault with _ | _ | k | _
  · exact h
  · cases h
  · exact List.mem_of_mem_take h
  · exact h

/-- The table cannot be opened, a row of it cannot be read, or the reading does not end. -/
inductive ScanFails (id : Nat) (t : Table) : Option Fault → StorageError → Prop
  | opening : ScanFails id t (some .onOpening) (.cannotOpen id)
  | reading {k : Int} (further : k.toNat < t.rows.length) :
      ScanFails id t (some (.after k)) (.readFailed k)
  | ending : ScanFails id t (some .atEnd) (.readFailed t.rows.length)

/-- The pages of a table cannot be counted; or else one of the rows that are read has a cell
without an order among those of its column; or else the rows cannot all be read. -/
inductive TableFails (catalog : Catalog) (options : StatsOptions) (id : Nat) (t : Table) :
    PlannerError → Prop
  | pages {e : PlannerError} (counted : catalog.pagesFilled id = .error e) :
      TableFails catalog options id t e
  | mismatch {pages : Int} {e : PlannerError} (counted : catalog.pagesFilled id = .ok pages)
      (first : FirstMismatch t.schema (t.rowsRead (options.faults.get? id)) e) :
      TableFails catalog options id t e
  | scan {pages : Int} {cause : StorageError} (counted : catalog.pagesFilled id = .ok pages)
      (uniform : t.schema.Uniform (t.rowsRead (options.faults.get? id)))
      (read : ScanFails id t (options.faults.get? id) cause) :
      TableFails catalog options id t (.scanFailed id cause)

/-- Storage fails to read. -/
theorem ScanFails.kind_eq {id : Nat} {t : Table} {fault : Option Fault} {cause : StorageError}
    (h : ScanFails id t fault cause) : cause.kind = .inputOutput := by
  cases h <;> rfl

theorem ScanFails.unique {id : Nat} {t : Table} {fault : Option Fault}
    {cause cause' : StorageError} (h : ScanFails id t fault cause)
    (h' : ScanFails id t fault cause') : cause = cause' := by
  cases h <;> cases h' <;> rfl

/-- A table fails for one reason only. -/
theorem TableFails.unique {catalog : Catalog} {options : StatsOptions} {id : Nat} {t : Table}
    {e e' : PlannerError} (h : TableFails catalog options id t e)
    (h' : TableFails catalog options id t e') : e = e' := by
  cases h with
  | pages counted =>
    cases h' with
    | pages counted' => exact Except.error.inj (counted.symm.trans counted')
    | mismatch counted' _ => cases counted.symm.trans counted'
    | scan counted' _ _ => cases counted.symm.trans counted'
  | mismatch counted first =>
    cases h' with
    | pages counted' => cases counted.symm.trans counted'
    | mismatch _ first' => exact first.unique first'
    | scan _ uniform' _ => exact absurd uniform' first.not_uniform
  | scan counted uniform read =>
    cases h' with
    | pages counted' => cases counted.symm.trans counted'
    | mismatch _ first' => exact absurd uniform first'.not_uniform
    | scan _ _ read' => rw [read.unique read']

section Take

variable {catalog : Catalog} {id : Nat} {t : Table}

theorem table_of_getElem? (hTable : catalog.tables[id]? = some t) : catalog.table id = .ok t := by
  rw [Catalog.table, if_neg (by omega), Int.toNat_natCast, hTable]

/-- Rows are read up to the end, or there is a reason why not. -/
theorem scan_cases (hTable : catalog.tables[id]? = some t) (fault : Option Fault) :
    (catalog.scan fault id = ⟨t.rows, none⟩ ∧ t.rowsRead fault = t.rows ∧
      ∀ cause, ¬ ScanFails id t fault cause) ∨
    ∃ cause, catalog.scan fault id = ⟨t.rowsRead fault, some cause⟩ ∧
      ScanFails id t fault cause := by
  have hOk := table_of_getElem? hTable
  rcases fault with _ | _ | k | _
  · exact Or.inl ⟨by simp [Catalog.scan, hOk], rfl, fun cause hFails => by cases hFails⟩
  · exact Or.inr ⟨.cannotOpen id, by simp [Catalog.scan, Table.rowsRead], .opening⟩
  · by_cases hFurther : k.toNat < t.rows.length
    · exact Or.inr ⟨.readFailed k, by simp [Catalog.scan, hOk, hFurther, Table.rowsRead],
        .reading hFurther⟩
    · refine Or.inl ⟨by simp [Catalog.scan, hOk, hFurther], ?_, fun cause hFails => ?_⟩
      · exact List.take_of_length_le (Nat.le_of_not_lt hFurther)
      · cases hFails with
        | reading further => exact hFurther further
  · exact Or.inr ⟨.readFailed t.rows.length, by simp [Catalog.scan, hOk, Table.rowsRead], .ending⟩

/-- A reading that does not break down goes through all rows. -/
theorem rows_of_scan (hTable : catalog.tables[id]? = some t) {fault : Option Fault}
    (hRead : (catalog.scan fault id).failure = none) : (catalog.scan fault id).rows = t.rows := by
  rcases scan_cases hTable fault with ⟨hScan, -⟩ | ⟨cause, hScan, -⟩
  · rw [hScan]
  · rw [hScan] at hRead
    cases hRead

/-- The bounds that are recorded are the ranges of the integer columns. -/
theorem summarizes_of_recorded {stats : TableStats} (hTable : stats.table = id)
    (hPages : catalog.pagesFilled id = .ok stats.pages) (hTuples : stats.tuples = t.rows.length)
    (hSchema : stats.schema = t.schema) (hRecorded : Recorded t.schema t.rows stats.bounds) :
    Summarizes catalog id t stats := by
  have hBounds : ∀ ref column, t.schema.locate ref = .ok column →
      stats.bounds? ref = .ok (stats.bounds.get? column) := by
    intro ref column hColumn
    rw [TableStats.bounds?, hSchema, hColumn]
    rfl
  refine ⟨hTable, hPages, hTuples, fun ref column hColumn hKind => ?_,
    fun ref column hColumn hKind => ?_, fun ref column hColumn hKind => ?_⟩
  · exact ⟨_, hBounds ref column hColumn, hRecorded.range column hKind⟩
  · rw [hBounds ref column hColumn, hRecorded.other column hKind]
  · have hRange := hRecorded.range column hKind
    rw [hBounds ref column hColumn, Except.ok.injEq]
    cases hFound : stats.bounds.get? column with
    | none =>
      rw [hFound] at hRange
      exact iff_of_true rfl hRange
    | some bounds =>
      rw [hFound] at hRange
      obtain ⟨⟨row, hRow, -⟩, -⟩ := hRange
      refine iff_of_false (fun h => ?_) (List.ne_nil_of_mem hRow)
      cases h

/-- What was made of the rows stands, if the reading went on to the end. -/
theorem afterScan_eq_ok_iff {id : Int} {read : Scan} {β : Type} {made : Outcome β} {b : β} :
    TableStats.afterScan id read made = .ok b ↔ made = .ok b ∧ read.failure = none := by
  cases made with
  | error e => exact iff_of_false (fun h => by cases h) fun h => by cases h.1
  | ok made =>
    rw [TableStats.afterScan]
    cases read.failure with
    | none => simp [pure, Except.pure, bind, Except.bind]
    | some cause => simp [throw, throwThe, MonadExceptOf.throw, bind, Except.bind]

theorem afterScan_eq_error_iff {id : Int} {read : Scan} {β : Type} {made : Outcome β}
    {e : PlannerError} : TableStats.afterScan id read made = .error e ↔
      made = .error e ∨
        ∃ b cause, made = .ok b ∧ read.failure = some cause ∧ e = .scanFailed id cause := by
  cases made with
  | error e' => simp [TableStats.afterScan, bind, Except.bind]
  | ok made =>
    rw [TableStats.afterScan]
    cases read.failure with
    | none => simp [pure, Except.pure, bind, Except.bind]
    | some cause => simp [throw, throwThe, MonadExceptOf.throw, bind, Except.bind, eq_comm]

/-- The bounds of the rows that are read stand, or there is a reason why not. -/
theorem bounds_cases (options : StatsOptions) (hTable : catalog.tables[id]? = some t)
    (hFits : ∀ row ∈ t.rows, t.schema.Fits row) {pages : Int}
    (hPages : catalog.pagesFilled id = .ok pages) {read : Scan}
    (hScan : catalog.scan (options.faults.get? id) id = read) :
    (∃ bounds, TableStats.afterScan id read (columnBounds t.schema read.rows) = .ok bounds ∧
      read.rows = t.rows ∧ Recorded t.schema t.rows bounds ∧
      ∀ e, ¬ TableFails catalog options id t e) ∨
    ∃ e, TableStats.afterScan id read (columnBounds t.schema read.rows) = .error e ∧
      TableFails catalog options id t e := by
  rcases scan_cases hTable (options.faults.get? id) with
    ⟨hAll, hRead, hReads⟩ | ⟨cause, hBroken, hFails⟩
  · obtain rfl := hScan.symm.trans hAll
    rcases columnBounds_cases hFits with ⟨bounds, hBounds, hRecorded⟩ | ⟨e, hBounds, hFirst⟩
    · refine Or.inl ⟨bounds, afterScan_eq_ok_iff.mpr ⟨hBounds, rfl⟩, rfl, hRecorded,
        fun e hFails => ?_⟩
      cases hFails with
      | pages counted => cases hPages.symm.trans counted
      | mismatch _ first => exact first.not_uniform (hRead ▸ hRecorded.uniform)
      | scan _ _ read => exact hReads _ read
    · exact Or.inr ⟨e, afterScan_eq_error_iff.mpr (Or.inl hBounds),
        .mismatch hPages (hRead ▸ hFirst)⟩
  · right
    obtain rfl := hScan.symm.trans hBroken
    have hFitsRead : ∀ row ∈ t.rowsRead (options.faults.get? id), t.schema.Fits row :=
      fun row hRow => hFits row (Table.mem_of_mem_rowsRead hRow)
    rcases columnBounds_cases hFitsRead with ⟨bounds, hBounds, hRecorded⟩ | ⟨e, hBounds, hFirst⟩
    · exact ⟨.scanFailed id cause,
        afterScan_eq_error_iff.mpr (Or.inr ⟨bounds, cause, hBounds, rfl, rfl⟩),
        .scan hPages hRecorded.uniform hFails⟩
    · exact ⟨e, afterScan_eq_error_iff.mpr (Or.inl hBounds), .mismatch hPages hFirst⟩

/-- The statistics of a table are taken, or there is a reason why not. -/
theorem take_cases (options : StatsOptions) (serial : Nat)
    (hTable : catalog.tables[id]? = some t) (hFits : ∀ row ∈ t.rows, t.schema.Fits row) :
    (∃ stats, TableStats.take catalog options serial id = .ok stats ∧
      Summarizes catalog id t stats ∧ ∀ e, ¬ TableFails catalog options id t e) ∨
    ∃ e, TableStats.take catalog options serial id = .error e ∧
      TableFails catalog options id t e := by
  rw [TableStats.take, table_of_getElem? hTable]
  cases hPages : catalog.pagesFilled id with
  | error e => exact Or.inr ⟨e, rfl, .pages hPages⟩
  | ok pages =>
    rcases bounds_cases options hTable hFits hPages rfl with
      ⟨bounds, hBounds, hRows, hRecorded, hNone⟩ | ⟨e, hError, hFails⟩
    · left
      refine ⟨_, bind_eq_ok.mpr ⟨t, rfl, bind_eq_ok.mpr ⟨pages, rfl,
        bind_eq_ok.mpr ⟨bounds, hBounds, rfl⟩⟩⟩,
        summarizes_of_recorded rfl hPages (congrArg List.length hRows) rfl hRecorded, hNone⟩
    · right
      refine ⟨e, ?_, hFails⟩
      exact bind_eq_error.mpr (Or.inr ⟨t, rfl, bind_eq_error.mpr (Or.inr ⟨pages, rfl,
        bind_eq_error.mpr (Or.inl hError)⟩)⟩)

end Take

end JoinPlanner
