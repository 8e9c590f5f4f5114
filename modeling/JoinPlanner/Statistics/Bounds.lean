import JoinPlanner.Catalog.Storage

/-!
# JoinPlanner — bounds of columns

The least and the largest cell of each integer column, found row by row. Nothing makes
sure that an integer column holds integers: if all of its cells are texts, so are its
bounds, and a cell of another kind than those before it has no order with them.

* `Bounds.widen`, `Bounds.excludes` — a cell is compared with bounds.
* `columnBounds` — the bounds of all integer columns, or the complaint about the first cell
  without an order.
-/

namespace JoinPlanner

/-- The cell in a column of a row. -/
def Row.cell (row : Row) (column : Nat) : Outcome Cell :=
  match row[column]? with
  | some cell => .ok cell
  | none => .error .shortRow

/-- The least and the largest of some cells of one kind. -/
inductive Bounds where
  | integers (low high : Int)
  | texts (low high : String)
  deriving DecidableEq, Repr

namespace Bounds

/-- The bounds of a single cell. -/
def ofCell : Cell → Bounds
  | .int n => integers n n
  | .text s => texts s s

def low : Bounds → Cell
  | integers low _ => .int low
  | texts low _ => .text low

def high : Bounds → Cell
  | integers _ high => .int high
  | texts _ high => .text high

/-- Both ends, if they are integers. -/
def integers? : Bounds → Option (Int × Int)
  | integers low high => some (low, high)
  | texts _ _ => none

/-- The bounds with one more cell. -/
def widen : Bounds → Cell → Outcome Bounds
  | integers low high, .int n => .ok (integers (min low n) (max high n))
  | texts low high, .text s =>
    .ok (texts (if s < low then s else low) (if high < s then s else high))
  | bounds, cell => .error (.incomparable "<" cell.typeName bounds.low.typeName)

/-- Whether a cell lies outside of the bounds. -/
def excludes : Bounds → Cell → Outcome Bool
  | integers low high, .int n => .ok (decide (n < low ∨ high < n))
  | texts low high, .text s => .ok (decide (s < low ∨ high < s))
  | bounds, cell => .error (.incomparable "<" cell.typeName bounds.low.typeName)

end Bounds

/-- The positions of the integer columns of a schema. -/
def Schema.integerColumns (schema : Schema) : List Nat :=
  (schema.columns.zipIdx.filter fun (c, _) => c.type == .integer).map Prod.snd

/-- The bounds of columns after one more cell of a row. -/
def widenColumn (row : Row) (bounds : Association Nat Bounds) (column : Nat) :
    Outcome (Association Nat Bounds) := do
  let cell ← row.cell column
  match bounds.get? column with
  | none => return bounds.put column (.ofCell cell)
  | some before => return bounds.put column (← before.widen cell)

/-- The bounds of every integer column, if there are rows. -/
def columnBounds (schema : Schema) (rows : List Row) : Outcome (Association Nat Bounds) :=
  rows.foldlM (fun bounds row => schema.integerColumns.foldlM (widenColumn row) bounds) []

end JoinPlanner
