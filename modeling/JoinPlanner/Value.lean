import JoinPlanner.Number.Decimal
import JoinPlanner.Sorting
import JoinPlanner.Text.Quoted

/-!
# JoinPlanner — values in messages

Values that are shown in messages and log lines. A text is shown bare on its own
and quoted inside a list.

* `Value.display` — a value on its own.
* `Value.inner`   — a value inside a list.
* `Value.items?`  — what a value is made of.
* `Cell`, `rowText` — the contents of table rows.
-/

namespace JoinPlanner

/-- A value in a message. -/
inductive Value where
  | null
  | flag (b : Bool)
  | number (q : Quantity)
  | text (s : String)
  | list (items : List Value)
  | mapping (entries : List (String × Value))
  deriving Repr

namespace Value

/-- The text of an optional text. -/
def ofOption : Option String → Value
  | none => null
  | some s => text s

mutual

/-- A value inside a list: texts are quoted. -/
def inner : Value → String
  | null => "None"
  | flag b => if b then "True" else "False"
  | number q => q.toText
  | text s => Text.quoted s
  | list items => "[" ++ ", ".intercalate (inners items) ++ "]"
  | mapping entries => "\x7b" ++ ", ".intercalate (innerEntries entries) ++ "\x7d"

def inners : List Value → List String
  | [] => []
  | v :: rest => inner v :: inners rest

def innerEntries : List (String × Value) → List String
  | [] => []
  | (key, v) :: rest => (Text.quoted key ++ ": " ++ inner v) :: innerEntries rest

end

/-- A value on its own: a text is shown as it is. -/
def display : Value → String
  | text s => s
  | v => inner v

-- ---------------------------------------------------------------------------
-- What values are
-- ---------------------------------------------------------------------------

/-- The name of the value's type. -/
def typeName : Value → String
  | null => "NoneType"
  | flag _ => "bool"
  | number (.whole _) => "int"
  | number (.real _) => "float"
  | text _ => "str"
  | list _ => "list"
  | mapping _ => "dict"

/-- Whether there is nothing to a value: it is null, false, zero or empty. -/
def isBlank : Value → Bool
  | null => true
  | flag b => !b
  | number (.whole n) => n == 0
  | number (.real x) => x.isZero
  | text s => s.isEmpty
  | list items => items.isEmpty
  | mapping entries => entries.isEmpty

/-- What a collection is made of: a text of its characters, a mapping of its keys. -/
def items? : Value → Option (List Value)
  | text s => some (s.toList.map fun c => text (String.singleton c))
  | list items => some items
  | mapping entries => some (entries.map fun e => text e.1)
  | _ => none

/-- The type of a value that can change, which no set can hold. -/
def changeable? : Value → Option String
  | list items => some (list items).typeName
  | mapping entries => some (mapping entries).typeName
  | _ => none

/-- The number that a value counts as. -/
def number? : Value → Option Quantity
  | flag b => some (.whole (if b then 1 else 0))
  | number q => some q
  | _ => none

end Value

/-- An optional name inside a message. -/
def optionalName (name : Option String) : String := (Value.ofOption name).display

-- ---------------------------------------------------------------------------
-- Rows
-- ---------------------------------------------------------------------------

/-- The content of one field of a row. -/
inductive Cell where
  | int (n : Int)
  | text (s : String)
  deriving DecidableEq, Repr

/-- Whether one cell comes no later than another; integers come before texts. -/
def Cell.ordered : Cell → Cell → Bool
  | int m, int n => decide (m ≤ n)
  | text s, text t => !decide (t < s)
  | int _, text _ => true
  | text _, int _ => false

/-- The cells in increasing order, each once. -/
def Cell.distinct (cells : List Cell) : List Cell := sortBy Cell.ordered cells.eraseDups

/-- A row of a table. -/
abbrev Row := List Cell

/-- A cell inside a row: texts are quoted. -/
def Cell.inner : Cell → String
  | int n => toString n
  | text s => Text.quoted s

/-- A cell on its own: a text is shown as it is. -/
def Cell.display : Cell → String
  | int n => toString n
  | text s => s

/-- The name of the cell's type. -/
def Cell.typeName : Cell → String
  | int _ => "int"
  | text _ => "str"

/-- Items in parentheses; a single item is followed by a comma. -/
def tupleText : List String → String
  | [] => "()"
  | [item] => "(" ++ item ++ ",)"
  | items => "(" ++ ", ".intercalate items ++ ")"

/-- The text of a row. -/
def rowText (row : Row) : String := tupleText (row.map Cell.inner)

end JoinPlanner
