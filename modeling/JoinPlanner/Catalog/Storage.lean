import JoinPlanner.Catalog.Basic

/-!
# JoinPlanner — reading tables

* `Fault`        — where the reading of a table breaks down.
* `Catalog.scan` — the rows that are read in order, and what ended the reading.
-/

namespace JoinPlanner

/-- Where the reading of a table breaks down. -/
inductive Fault where
  /-- The table cannot be opened. -/
  | onOpening
  /-- The tuple after the given number of tuples, at least the first one, cannot be read. -/
  | after (tuples : Int)
  /-- All tuples are read, but the reading does not come to its end. -/
  | atEnd
  deriving DecidableEq, Repr

/-- The rows that were read, and why the reading stopped before the end, if it did. -/
structure Scan where
  rows : List Row
  failure : Option StorageError
  deriving Repr

namespace Catalog

/-- Reads a table under a fault. A fault after the last tuple shows only if it is one at the end. -/
def scan (catalog : Catalog) (fault : Option Fault) (id : Int) : Scan :=
  match fault, catalog.table id with
  | some .onOpening, _ => ⟨[], some (.cannotOpen id)⟩
  | _, .error _ => ⟨[], some (.missingFile id)⟩
  | none, .ok t => ⟨t.rows, none⟩
  | some (.after k), .ok t =>
    if k.toNat < t.rows.length then ⟨t.rows.take k.toNat, some (.readFailed k)⟩
    else ⟨t.rows, none⟩
  | some .atEnd, .ok t => ⟨t.rows, some (.readFailed t.rows.length)⟩

/-- All rows of a table, read without a fault. -/
def allRows (catalog : Catalog) (id : Int) : Outcome (List Row) :=
  let read := catalog.scan none id
  match read.failure with
  | none => .ok read.rows
  | some e => .error (.storage e)

end Catalog

end JoinPlanner
