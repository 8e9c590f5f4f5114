import JoinPlanner.Comparand.Basic

/-!
# JoinPlanner — grids

A grid is a table of any number of dimensions: rows, rows of rows, and so on, with
equally many items at each level. Its elements have a common type.

* `Nest.shape`       — how many items there are at each level, if that is the same everywhere.
* `ElementType`      — the types of elements; `join` is the common type of two.
* `Grid.ofComparand` — the grid that a comparand stands for.
* `Grid.pairs?`      — the elements of two grids that stand in the same place.
-/

namespace JoinPlanner

-- ---------------------------------------------------------------------------
-- Shapes
-- ---------------------------------------------------------------------------

/-- Values in rows, and in rows of rows. -/
inductive Nest (α : Type) where
  | leaf (x : α)
  | rows (items : List (Nest α))

/--
What is known of a shape while values are visited one after another. The first path
down to a value settles the shape; what does not fit later makes it ragged, and then
only the levels above are left of it.
-/
structure ShapeSearch where
  /-- The number of levels that may be in use. -/
  limit : Nat
  /-- The number of items at each level. -/
  counts : List Nat
  settled : Bool
  ragged : Bool
  deriving DecidableEq, Repr

namespace ShapeSearch

/-- The most levels that a grid has. -/
def maxLevels : Nat := 64

def start : ShapeSearch := ⟨maxLevels, [], false, false⟩

/-- A value at some level: there are no further levels. -/
def visitLeaf (s : ShapeSearch) (level : Nat) : ShapeSearch :=
  if s.limit < level then { s with settled := true, ragged := true }
  else if s.limit = level then { s with settled := true }
  else { s with limit := level, settled := true, ragged := s.ragged || s.settled }

/-- Whether a row with so many items fits at some level. -/
def fits (s : ShapeSearch) (level count : Nat) : Bool :=
  level < s.limit && (!s.settled || s.counts[level]? == some count)

/-- A row that fits. -/
def visitRow (s : ShapeSearch) (level count : Nat) : ShapeSearch :=
  if s.settled then s else { s with counts := s.counts.take level ++ [count] }

/-- A row that does not fit. -/
def rejectRow (s : ShapeSearch) (level : Nat) : ShapeSearch :=
  { s with limit := min s.limit level, ragged := true }

end ShapeSearch

namespace Nest

variable {α : Type}

mutual

/-- Visits a nest at some level. -/
def visit (level : Nat) (s : ShapeSearch) : Nest α → ShapeSearch
  | leaf _ => s.visitLeaf level
  | rows items =>
    if s.limit = level then { s.visitLeaf level with ragged := true }
    else if !s.fits level items.length then s.rejectRow level
    else
      let next := s.visitRow level items.length
      if items.isEmpty then { next with limit := level + 1, settled := true }
      else visitAll (level + 1) next items

def visitAll (level : Nat) (s : ShapeSearch) : List (Nest α) → ShapeSearch
  | [] => s
  | item :: rest => visitAll level (visit level s item) rest

end

/-- How many items there are at each level, if that is the same everywhere. -/
def shape (nest : Nest α) : Outcome (List Nat) :=
  let s := visit 0 .start nest
  let counts := s.counts.take s.limit
  if !s.ragged then .ok counts
  else if s.limit = ShapeSearch.maxLevels then .error (.tooManyLevels s.limit)
  else .error (.raggedGrid counts)

mutual

/-- The values in order. -/
def leaves : Nest α → List α
  | leaf x => [x]
  | rows items => leavesOf items

def leavesOf : List (Nest α) → List α
  | [] => []
  | item :: rest => leaves item ++ leavesOf rest

end

end Nest

-- ---------------------------------------------------------------------------
-- Element types
-- ---------------------------------------------------------------------------

/-- The type of the elements of a grid. -/
inductive ElementType where
  | flag
  /-- Integers of 64 bits with a sign. -/
  | signed
  /-- Integers of 64 bits without a sign. -/
  | unsigned
  | real
  | bytes
  | text
  /-- Elements of any kind, as they are. -/
  | any
  deriving DecidableEq, Repr

namespace ElementType

/-- The common type of two: doubles hold all numbers, and texts hold numbers too. -/
def join : ElementType → ElementType → ElementType
  | any, _ | _, any => any
  | text, _ | _, text => text
  | bytes, _ | _, bytes => bytes
  | real, _ | _, real => real
  | flag, t | t, flag => t
  | signed, signed => signed
  | unsigned, unsigned => unsigned
  | signed, unsigned | unsigned, signed => real

def isNumeric : ElementType → Bool
  | flag | signed | unsigned | real => true
  | _ => false

/--
The type that elements of two types are compared in: numbers as doubles or as integers,
anything beside elements of any kind as it is. Numbers and texts are not compared.
-/
def beside? (t u : ElementType) : Option ElementType :=
  if t = any || u = any then some any
  else if t.isNumeric && u.isNumeric then some (if t = real || u = real then real else signed)
  else if t = u then some t
  else none

/-- The type of an integer. -/
def ofInt (n : Int) : ElementType :=
  if -(Int.pow 2 63) ≤ n && n < Int.pow 2 63 then signed
  else if 0 ≤ n && n < Int.pow 2 64 then unsigned
  else any

/-- The type of a comparand as an element. -/
def ofComparand : Comparand → ElementType
  | .flag _ => flag
  | .number (.whole n) => ofInt n
  | .number (.real _) | .realCell _ => real
  | .intCell _ => signed
  | .text _ => text
  | .bytes _ => bytes
  | _ => any

/-- The common type of several ones; doubles if there are none. -/
def common : List ElementType → ElementType
  | [] => real
  | t :: rest => rest.foldl join t

end ElementType

-- ---------------------------------------------------------------------------
-- Grids
-- ---------------------------------------------------------------------------

mutual

/-- The rows of a comparand. -/
def Comparand.nest : Comparand → Nest Comparand
  | .tuple items => .rows (Comparand.nests items)
  | .list items => .rows (Comparand.nests items)
  | .intArray items => .rows (Comparand.nests items)
  | .realArray items => .rows (Comparand.nests items)
  | x => .leaf x

def Comparand.nests : List Comparand → List (Nest Comparand)
  | [] => []
  | x :: rest => Comparand.nest x :: Comparand.nests rest

end

mutual

/-- The types of a comparand's elements; an array has one for all of them. -/
def Comparand.elementTypes : Comparand → List ElementType
  | .tuple items => Comparand.typesOf items
  | .list items => Comparand.typesOf items
  | .intArray _ => [.signed]
  | .realArray _ => [.real]
  | x => [.ofComparand x]

def Comparand.typesOf : List Comparand → List ElementType
  | [] => []
  | x :: rest => Comparand.elementTypes x ++ Comparand.typesOf rest

end

/-- Elements of one type, level by level. -/
structure Grid where
  shape : List Nat
  type : ElementType
  elements : List Comparand
  deriving Repr

namespace Grid

/-- The type of a grid of one comparand: an integer on its own adapts to what is beside it. -/
def typeOf : Comparand → ElementType
  | .number (.whole _) => .signed
  | comparand => .common comparand.elementTypes

/-- The grid that a comparand stands for. -/
def ofComparand (comparand : Comparand) : Outcome Grid := do
  let nest := comparand.nest
  let shape ← nest.shape
  return ⟨shape, typeOf comparand, nest.leaves⟩

/-- An element as a value of its own, in the type of its grid. -/
def plain (type : ElementType) (x : Comparand) : Outcome Comparand :=
  match type, x.number? with
  | .real, some q => do return .number (.real (← q.toReal))
  | .signed, some q | .unsigned, some q => .ok (.number q)
  | _, _ => .ok x

/-- The grid with its elements as values of their own; as doubles if the type asks for them. -/
def ofPlain (g : Grid) (type : ElementType) : Outcome Grid := do
  let own := if type = .real then .real else g.type
  return { g with type := own, elements := ← g.elements.mapM (plain own) }

/-- The shape of two shapes side by side: a level with one item is repeated. -/
def joinShapes (xs ys : List Nat) : Option (List Nat) :=
  let length := max xs.length ys.length
  let filled (zs : List Nat) : List Nat := List.replicate (length - zs.length) 1 ++ zs
  (List.zip (filled xs) (filled ys)).mapM fun (m, n) =>
    if m = n ∨ n = 1 then some m else if m = 1 then some n else none

/-- All places of a shape in order. -/
def places : List Nat → List (List Nat)
  | [] => [[]]
  | count :: rest =>
    (List.range count).flatMap fun (i : Nat) => (places rest).map (i :: ·)

/-- The element at a place of a shape that the grid's own shape is repeated to. -/
def element? (g : Grid) (place : List Nat) : Option Comparand :=
  let own := place.drop (place.length - g.shape.length)
  g.elements[(List.zip g.shape own).foldl
    (fun acc (count, i) => acc * count + (if count = 1 then 0 else i)) 0]?

/-- The elements of two grids that stand in the same place, if the shapes fit together. -/
def pairs? (g h : Grid) : Option (List (Comparand × Comparand)) := do
  let shape ← joinShapes g.shape h.shape
  return (places shape).filterMap fun place =>
    (g.element? place).bind fun x => (h.element? place).map fun y => (x, y)

end Grid

end JoinPlanner
