/-!
# JoinPlanner — table schemas

* `ColumnType` — the types of columns with their sizes in bytes.
* `Schema`     — the named columns of a table, in order.
* `slotsPerPage` — how many tuples a page holds.
-/

namespace JoinPlanner

/-- The types of columns. -/
inductive ColumnType where
  | integer
  | string
  deriving DecidableEq, Repr

namespace ColumnType

/-- The bytes that a value takes in a stored tuple; a text has a length and 128 bytes. -/
def size : ColumnType → Nat
  | integer => 4
  | string => 132

def name : ColumnType → String
  | integer => "Integer"
  | string => "String"

/-- The type of the given name. -/
def ofName? (text : String) : Option ColumnType := [integer, string].find? (·.name == text)

end ColumnType

/-- A named column. -/
structure Column where
  name : String
  type : ColumnType
  deriving DecidableEq, Repr

/-- The columns of a table, in the order of its tuples. -/
structure Schema where
  columns : List Column
  deriving DecidableEq, Repr

namespace Schema

def names (schema : Schema) : List String := schema.columns.map Column.name

/-- The bytes of one tuple. -/
def tupleBytes (schema : Schema) : Nat := (schema.columns.map (·.type.size)).foldr (· + ·) 0

/-- The columns in parentheses, each with its type. -/
def toText (schema : Schema) : String :=
  "(" ++ ", ".intercalate (schema.columns.map fun c => c.name ++ " " ++ c.type.name) ++ ")"

end Schema

/-- A reference to a column, by its name or its position. -/
inductive ColumnRef where
  | name (text : String)
  | position (index : Int)
  deriving DecidableEq, Repr

/-- The page size in bytes, unless another one is given. -/
def defaultPageSize : Int := 4096

/--
The tuples that fit on a page: each takes its bytes and one bit of the page's
header, which marks its slot as used.
-/
def slotsPerPage (schema : Schema) (pageSize : Int) : Int :=
  Int.fdiv (pageSize * 8) (schema.tupleBytes * 8 + 1)

end JoinPlanner
