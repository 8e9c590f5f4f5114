import JoinPlanner.Association
import JoinPlanner.Error

/-!
# JoinPlanner — frames

A frame is a table of results with named columns. A column that mixes integers and
doubles, or has gaps among its numbers, holds doubles. A column with anything but
numbers, or with integers that no 64-bit type can hold, stays as it is.

* `Survey.take`  — what the entries of a column allow, read from the first.
* `Frame.unify`  — the values of a column in their common type.
* `Frame.ofRows` — a frame with the given columns, from rows that have them all.
-/

namespace JoinPlanner

-- ---------------------------------------------------------------------------
-- Surveys
-- ---------------------------------------------------------------------------

/-- What has been seen in a column. -/
structure Survey where
  gap : Bool := false
  flag : Bool := false
  real : Bool := false
  whole : Bool := false
  /-- An integer that only an unsigned type can hold. -/
  wide : Bool := false
  /-- An integer that only a signed type can hold. -/
  negative : Bool := false
  deriving DecidableEq, Repr

namespace Survey

/-- With an integer added; behind a gap the column can only hold doubles anyway. -/
def takeWhole (s : Survey) (n : Int) : Survey :=
  if s.gap then { s with whole := true }
  else { s with whole := true, wide := s.wide || Int.pow 2 63 ≤ n, negative := s.negative || n < 0 }

/-- Whether some 64-bit type holds an integer and all earlier ones. -/
def holds (s : Survey) (n : Int) : Bool :=
  !(s.wide && s.negative) && -(Int.pow 2 63) ≤ n && n < Int.pow 2 64

/--
With one entry added; none if the column has to stay as it is. Every integer must lie
in the range of doubles.
-/
def takeOne (s : Survey) : Value → Outcome (Option Survey)
  | .null => .ok (some { s with gap := true })
  | .flag _ => .ok (some { s with flag := true })
  | .number (.real _) => .ok (some { s with real := true })
  | .number (.whole n) => do
    let _ ← Binary64.ofInt n
    let next := s.takeWhole n
    return if next.gap || next.holds n then some next else none
  | _ => .ok none

/-- With all entries added; nothing is read behind the one that settles that the column stays. -/
def take (s : Survey) : List Value → Outcome (Option Survey)
  | [] => .ok (some s)
  | v :: rest => do
    match ← s.takeOne v with
    | none => return none
    | some s => s.take rest

/-- Whether the column becomes one of doubles. -/
def widens (s : Survey) : Bool := !s.flag && (s.real || s.gap && s.whole)

end Survey

-- ---------------------------------------------------------------------------
-- Frames
-- ---------------------------------------------------------------------------

/-- Named columns of values. -/
structure Frame where
  columns : List String
  values : List (List Value)
  deriving Repr

namespace Frame

/-- A number or a gap as a double; a value without one stays. -/
def widen : Value → Outcome Value
  | .number q => do return .number (.real (← q.toReal))
  | .null => .ok (.number (.real .nan))
  | v => .ok v

/-- The values of a column in their common type. -/
def unify (column : List Value) : Outcome (List Value) := do
  match ← Survey.take {} column with
  | some s => if s.widens then column.mapM widen else return column
  | none => return column

/-- The entry of a row in a column. -/
def entry (row : Association String Value) (column : String) : Outcome Value :=
  match row.get? column with
  | some v => .ok v
  | none => .error (.missingEntry column)

/-- A frame with the given columns; other entries of the rows are left out. -/
def ofRows (rows : List (Association String Value)) (columns : List String) : Outcome Frame := do
  let values ← columns.mapM fun column => rows.mapM fun row => entry row column
  return ⟨columns, ← values.mapM unify⟩

end Frame

end JoinPlanner
