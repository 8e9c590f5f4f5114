import JoinPlanner.Json.Document

/-!
# JoinPlanner — join predicates

A predicate compares a column of one table with a column of another table, or with
the result of a subquery that has already been planned. Predicates are compared as
values, with regard to their kind.

* `Predicate.tables`  — the tables that a predicate joins.
* `Predicate.flipped` — the same condition with its sides exchanged; a join with a
  subplan stays as it is, because the subquery is always the inner side.
* `Predicate.parse`   — reads a predicate from qualified column names.
* `flipped_flipped`   — exchanging the sides twice changes nothing.
-/

namespace JoinPlanner

/-- One side of a comparison. Both names can be absent on the side of a subquery. -/
structure Operand where
  table : Option String
  column : Option String
  deriving DecidableEq, Repr

namespace Operand

/-- The qualified name. -/
def toText (side : Operand) : String :=
  optionalName side.table ++ "." ++ optionalName side.column

/-- Reads a qualified name: the text up to the first point is the table. -/
def parse (name : String) : Outcome Operand :=
  let cs := name.toList
  let table := cs.takeWhile (· != '.')
  let column := cs.drop (table.length + 1)
  if table.isEmpty || column.isEmpty then .error (.unqualifiedName name)
  else .ok { table := some (String.ofList table), column := some (String.ofList column) }

end Operand

/-- What a predicate joins its left table with. -/
inductive PredicateKind where
  | table
  | subplan
  deriving DecidableEq, Repr

/-- A join condition. -/
structure Predicate where
  kind : PredicateKind
  left : Operand
  operator : Comparison
  right : Operand
  deriving DecidableEq, Repr

/-- Reads an operator symbol. -/
def Comparison.parse (symbol : String) : Outcome Comparison :=
  match Comparison.ofSymbol? symbol with
  | some op => .ok op
  | none => .error (.unknownSymbol (Comparison.normalize symbol))

namespace Predicate

def isSubplan (p : Predicate) : Bool := p.kind == .subplan

/-- A join of two tables, from qualified names and a way to find the operator. -/
def parse (left : String) (operator : Outcome Comparison) (right : String) :
    Outcome Predicate := do
  let left ← Operand.parse left
  let right ← Operand.parse right
  return { kind := .table, left, operator := ← operator, right }

/-- A join with a subquery, which may have a text. -/
def parseSubplan (left : String) (operator : Outcome Comparison) (subquery : Option String) :
    Outcome Predicate := do
  let left ← Operand.parse left
  return { kind := .subplan, left, operator := ← operator, right := ⟨none, subquery⟩ }

-- ---------------------------------------------------------------------------
-- Tables
-- ---------------------------------------------------------------------------

/--
The tables that the predicate joins. The side of a subquery is not one of them; an
absent table counts only on the left of a join with a subplan.
-/
def tables (p : Predicate) : List (Option String) :=
  match p.kind with
  | .subplan => [p.left.table]
  | .table => [p.left.table, p.right.table].filter Option.isSome

/-- Whether the predicate joins the given table. -/
def joins (p : Predicate) (table : Option String) : Bool := p.tables.contains table

/-- The tables of several predicates, each once, in order of appearance. -/
def tablesIn (predicates : List Predicate) : List (Option String) :=
  (predicates.flatMap tables).eraseDups

-- ---------------------------------------------------------------------------
-- Sides
-- ---------------------------------------------------------------------------

/-- The same condition with its sides exchanged. -/
def flipped (p : Predicate) : Predicate :=
  match p.kind with
  | .subplan => p
  | .table => { p with left := p.right, operator := p.operator.converse, right := p.left }

@[simp] theorem flipped_kind (p : Predicate) : p.flipped.kind = p.kind := by
  unfold flipped
  split <;> rfl

@[simp] theorem flipped_flipped (p : Predicate) : p.flipped.flipped = p := by
  obtain ⟨kind, left, operator, right⟩ := p
  cases kind <;> simp [flipped]

-- ---------------------------------------------------------------------------
-- Text
-- ---------------------------------------------------------------------------

/-- The text of the subquery, if there is one. -/
def subqueryText? (p : Predicate) : Option String :=
  p.right.column.filter fun text => !text.isEmpty

/-- The condition as it is shown to a reader. -/
def toText (p : Predicate) : String :=
  let right :=
    match p.kind with
    | .table => p.right.toText
    | .subplan => "(" ++ p.subqueryText?.getD "subplan" ++ ")"
  p.left.toText ++ " " ++ p.operator.symbol ++ " " ++ right

/-- The condition as a document. -/
def document (p : Predicate) : Json.Document :=
  let right :=
    match p.kind with
    | .table => ("right", .text p.right.toText)
    | .subplan => ("subplan", .text (p.subqueryText?.getD ""))
  .ofFields [("left", .text p.left.toText), ("operator", .text p.operator.symbol), right]

end Predicate

end JoinPlanner
