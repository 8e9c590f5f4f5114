import JoinPlanner.Error

/-!
# JoinPlanner — comparands

A comparand is a value as far as comparisons can tell. Comparands are the keys of objects,
and they stand for the values of entries where an order of entries depends on those.

Numbers come in two forms: as values of their own, and as *cells*, which were taken out
of an array. A cell counts as its number, but it has a type of its own, and comparisons
with a cell or an array follow rules of their own.

* `Comparand.number?`   — the number that a comparand counts as.
* `Comparand.isGridded` — whether comparisons with it go element by element.
-/

namespace JoinPlanner

/-- A value as far as comparisons can tell. -/
inductive Comparand where
  | null
  | flag (b : Bool)
  | number (q : Quantity)
  | text (s : String)
  | bytes (content : String)
  | tuple (items : List Comparand)
  | list (items : List Comparand)
  | set (members : List Comparand)
  | mapping (entries : List (Comparand × Comparand))
  /-- Integers of 64 bits; of several dimensions, its items are arrays again. -/
  | intArray (items : List Comparand)
  /-- Doubles; of several dimensions, its items are arrays again. -/
  | realArray (items : List Comparand)
  /-- A cell that holds an integer of 64 bits. -/
  | intCell (n : Int)
  /-- A cell that holds a double. -/
  | realCell (x : Binary64)
  /-- A value that is equal to another one by its type and its parts, and has no order. -/
  | record (type : String) (parts : List Comparand)
  deriving Repr

namespace Comparand

/-- The name of the comparand's type. -/
def typeName : Comparand → String
  | null => "NoneType"
  | flag _ => "bool"
  | number (.whole _) => "int"
  | number (.real _) => "float"
  | text _ => "str"
  | bytes _ => "bytes"
  | tuple _ => "tuple"
  | list _ => "list"
  | set _ => "set"
  | mapping _ => "dict"
  | intArray _ | realArray _ => "numpy.ndarray"
  | intCell _ => "int64"
  | realCell _ => "float64"
  | record type _ => type

/-- The name of the comparand's type with the name of its home. -/
def qualifiedTypeName : Comparand → String
  | intCell _ => "numpy.int64"
  | comparand => comparand.typeName

/-- The number that a comparand counts as. -/
def number? : Comparand → Option Quantity
  | flag b => some (.whole (if b then 1 else 0))
  | number q => some q
  | intCell n => some (.whole n)
  | realCell x => some (.real x)
  | _ => none

/-- Whether a comparand is a cell or an array. -/
def isGridded : Comparand → Bool
  | intArray _ | realArray _ | intCell _ | realCell _ => true
  | _ => false

end Comparand

end JoinPlanner
