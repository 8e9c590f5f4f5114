import JoinPlanner.CostModel
import JoinPlanner.Histogram.Textual
import JoinPlanner.Statistics.Bounds
import JoinPlanner.Text.Integer
import JoinPlanner.Trace

/-!
# JoinPlanner — table statistics

Statistics of a table are taken in one scan and never change: the number of tuples
and pages, and the bounds of every integer column. Histograms for estimates are built
from the rows that the table has when they are needed, unless one is remembered.

* `TableStats.take`        — the statistics of a table.
* `TableStats.scanCost`, `TableStats.cardinality` — the basic estimates.
* `TableStats.columnHistogram` — the histogram of a column; values outside of the
  recorded bounds are left out with a warning each.
* `TableStats.selectivity` — the estimate for a filter, with the remembered
  histograms before and after.
-/

namespace JoinPlanner

/-- How statistics are taken. -/
structure StatsOptions where
  /-- The cost of reading one page. -/
  ioCost : Quantity := .whole 1000
  /-- The buckets of a histogram. -/
  buckets : Int := 100
  /-- Whether histograms are remembered. -/
  memoize : Bool := false
  /-- The tables that cannot be read, or not to their ends. -/
  faults : Association Int Fault := []

/-- The statistics of a table. -/
structure TableStats where
  /-- Tells apart statistics that were taken at different times. -/
  serial : Nat
  table : Int
  ioCost : Quantity
  buckets : Int
  memoize : Bool
  fault : Option Fault
  schema : Schema
  pages : Int
  tuples : Nat
  /-- The smallest and the largest value of integer columns, by position. -/
  bounds : Association Nat Bounds
  deriving Repr

/-- A value that a column is compared with. -/
inductive Constant where
  | number (q : Quantity)
  | text (s : String)
  deriving Repr

/-- The histogram of a column. -/
inductive ColumnHistogram where
  | numeric (h : Histogram Binary64)
  | textual (h : TextHistogram Binary64)
  deriving Repr

namespace ColumnHistogram

/-- The estimate for a text among integers: none is needed as long as there are no values. -/
def estimateMisplaced (h : Histogram Binary64) (op : Comparison) : Outcome Binary64 := do
  if op = .like then throw (.unsupportedOperator op)
  if h.total = 0 then return Binary64.zero
  match op with
  | .less | .greaterEqual => throw (.incomparable "<=" "str" "int")
  | .greater | .lessEqual => throw .noNextText
  | _ => throw (.incomparable "<" "str" "int")

/-- The estimate of a histogram; the constant has to suit the column. -/
def estimate (h : ColumnHistogram) (op : Comparison) (constant : Constant) : Outcome Binary64 :=
  match h, constant with
  | numeric h, .number q => h.estimate op q
  | textual h, .text s => h.estimate op s
  | numeric h, .text _ => estimateMisplaced h op
  | textual _, .number (.whole _) => .error (.notText "int")
  | textual _, .number (.real _) => .error (.notText "float")

end ColumnHistogram

/-- The histograms that are remembered, by the positions of their columns. -/
abbrev Memo := Association Nat ColumnHistogram

/-- The text in a column of a row, which has to hold one. -/
def Row.text (row : Row) (column : Nat) : Outcome String :=
  match row[column]? with
  | some (.text s) => .ok s
  | some (.int _) => .error (.notText "int")
  | none => .error .shortRow

namespace TableStats

-- ---------------------------------------------------------------------------
-- Taking statistics
-- ---------------------------------------------------------------------------

/-- What was made of the rows that were read, if the reading went on to the end. -/
def afterScan (id : Int) (read : Scan) {β : Type} (made : Outcome β) : Outcome β := do
  let b ← made
  match read.failure with
  | none => return b
  | some cause => throw (.scanFailed id cause)

/-- The statistics of a table. -/
def take (catalog : Catalog) (options : StatsOptions) (serial : Nat) (id : Int) :
    Outcome TableStats := do
  let table ← catalog.table id
  let pages ← catalog.pagesFilled id
  let fault := options.faults.get? id
  let read := catalog.scan fault id
  let bounds ← afterScan id read (columnBounds table.schema read.rows)
  return {
    serial, table := id, ioCost := options.ioCost, buckets := options.buckets
    memoize := options.memoize, fault, schema := table.schema, pages
    tuples := read.rows.length, bounds }

-- ---------------------------------------------------------------------------
-- Basic estimates
-- ---------------------------------------------------------------------------

/-- The cost of reading all pages; the last one costs as much as the others. -/
def scanCost (stats : TableStats) : Except NumberError Cost :=
  Number.mul (.whole stats.pages) stats.ioCost

/-- One half. -/
def half : Quantity := .real (Binary64.ofQuotient false Binary64.unitsPerOne 2)

/-- The tuples that pass a filter, to the nearest integer; a half goes up. -/
def cardinality (stats : TableStats) (selectivity : Quantity) : Except NumberError Cardinality := do
  (← (← Number.mul (.whole stats.tuples) selectivity).add half).truncate

/-- The bounds of a column, if it is an integer column and the table has rows. -/
def bounds? (stats : TableStats) (column : ColumnRef) : Outcome (Option Bounds) :=
  return stats.bounds.get? (← stats.schema.locate column)

/-- The bounds of a column, if they are integers. -/
def range? (stats : TableStats) (column : ColumnRef) : Outcome (Option (Int × Int)) :=
  return (← stats.bounds? column).bind Bounds.integers?

-- ---------------------------------------------------------------------------
-- Histograms
-- ---------------------------------------------------------------------------

/-- An empty histogram between two bounds. Texts are taken for the integers they stand for,
which may be in another order. -/
def emptyHistogram (buckets : Int) : Bounds → Outcome (Histogram Binary64)
  | .integers low high => Histogram.create buckets low high
  | .texts low high => do
    if high < low then throw (.invalidTextRange low high)
    if buckets < 1 then throw (.noBuckets buckets)
    let first ← Text.integer low
    let last ← Text.integer high
    if last + 1 = first then throw .divisionByZero
    if last < first then throw .negativeLength
    Histogram.create buckets first last

/-- The bucket of a cell, or none if it is outside of the bounds. Only integers have buckets. -/
def bucketOf (bounds : Bounds) (h : Histogram Binary64) (cell : Cell) : Outcome (Option Nat) := do
  if ← bounds.excludes cell then return none
  match cell with
  | .int n => return some (← h.locate n)
  | .text _ => throw (.incomparable "<" "str" "int")

/--
Adds the cells of a column to a histogram. Cells outside of the bounds are listed instead,
in the order of the rows.
-/
def fillNumeric (column : Nat) (bounds : Bounds) (h : Histogram Binary64) :
    List Row → List Cell × Outcome (Histogram Binary64)
  | [] => ([], .ok h)
  | row :: rest =>
    match row.cell column with
    | .error e => ([], .error e)
    | .ok cell =>
      match bucketOf bounds h cell with
      | .error e => ([], .error e)
      | .ok none =>
        let (stale, outcome) := fillNumeric column bounds h rest
        (cell :: stale, outcome)
      | .ok (some bucket) => fillNumeric column bounds (h.increment bucket) rest

/-- Adds the texts of a column to a histogram. -/
def fillTextual (column : Nat) (h : TextHistogram Binary64) :
    List Row → Outcome (TextHistogram Binary64)
  | [] => .ok h
  | row :: rest =>
    match Row.text row column with
    | .error e => .error e
    | .ok text =>
      match h.inner.locate (leadingNumber text) with
      | .ok bucket => fillTextual column ⟨h.inner.increment bucket⟩ rest
      | .error e => .error e

/-- The current rows of the table, as far as they can be read. -/
def reread (stats : TableStats) (catalog : Catalog) : Scan :=
  catalog.scan stats.fault stats.table

/-- The histogram of a column from the rows that were read of the table. -/
def columnHistogram (stats : TableStats) (read : Scan) (column : Nat) :
    Traced ColumnHistogram := do
  match ← (stats.schema.columnType (.position column) : Outcome ColumnType) with
  | .string =>
    let h ← (TextHistogram.create stats.buckets : Outcome (TextHistogram Binary64))
    let filled ← afterScan stats.table read (fillTextual column h read.rows)
    return .textual filled
  | .integer =>
    let bounds := (stats.bounds.get? column).getD (.integers 0 0)
    let h ← (emptyHistogram stats.buckets bounds : Outcome (Histogram Binary64))
    let (stale, filled) := fillNumeric column bounds h read.rows
    Traced.tell (stale.map fun cell => .warning (.staleRow cell stats.table))
    return .numeric (← afterScan stats.table read filled)

/--
The estimated fraction of tuples whose column satisfies a comparison, with the
remembered histograms afterwards. Only histograms that could be built are remembered.
-/
def selectivity (stats : TableStats) (read : Scan) (memo : Memo) (column : ColumnRef)
    (op : Comparison) (constant : Constant) : Memo × Traced Binary64 :=
  match stats.schema.locate column with
  | .error e => (memo, .ofOutcome (.error e))
  | .ok index =>
    match memo.get? index with
    | some h => (memo, .ofOutcome (h.estimate op constant))
    | none =>
      let built := stats.columnHistogram read index
      match built.outcome with
      | .error e => (memo, ⟨built.events, .error e⟩)
      | .ok h =>
        (if stats.memoize then memo.put index h else memo,
          ⟨built.events, h.estimate op constant⟩)

/-- The estimate for a value that is not known: everything passes. -/
def unknownSelectivity (stats : TableStats) (column : ColumnRef) : Outcome Binary64 := do
  let _ ← stats.schema.locate column
  return Binary64.one

-- ---------------------------------------------------------------------------
-- Text
-- ---------------------------------------------------------------------------

/-- A short description. -/
def describe (stats : TableStats) : String :=
  s!"TableStatistics(table={stats.table}, pages={stats.pages}, tuples={stats.tuples})"

/-- A cell as a document. -/
def cellDocument : Cell → Json.Document
  | .int n => .int n
  | .text s => .text s

/-- One bound of every column, by the names of the columns. -/
def boundsDocument (stats : TableStats) (bound : Bounds → Cell) : Json.Document :=
  .ofMerged (stats.bounds.map fun (column, bounds) =>
    ((stats.schema.names[column]?).getD "", cellDocument (bound bounds)))

/-- The statistics as a document. -/
def document (stats : TableStats) : Json.Document :=
  .ofFields [
    ("table_id", .int stats.table),
    ("pages", .int stats.pages),
    ("tuples", .int stats.tuples),
    ("io_cost_per_page", .number stats.ioCost),
    ("min_values", stats.boundsDocument Bounds.low),
    ("max_values", stats.boundsDocument Bounds.high)]

end TableStats

end JoinPlanner
