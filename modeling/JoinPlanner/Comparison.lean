import JoinPlanner.Text.Blank
import JoinPlanner.Text.Uppercase

/-!
# JoinPlanner — comparison operators

* `Comparison.symbol`    — the canonical symbol of an operator.
* `Comparison.ofSymbol?` — reads a symbol, without regard to blanks around it and
  to the case of letters; `==` and `!=` are further spellings.
* `Comparison.converse`  — the operator for exchanged operands.
-/

namespace JoinPlanner

/-- The operators of join conditions and filters. -/
inductive Comparison where
  | equal
  | notEqual
  | less
  | lessEqual
  | greater
  | greaterEqual
  /-- Pattern matching; no estimate supports it. -/
  | like
  deriving DecidableEq, Repr

namespace Comparison

/-- All operators. -/
def all : List Comparison :=
  [equal, notEqual, less, lessEqual, greater, greaterEqual, like]

/-- The canonical symbol. -/
def symbol : Comparison → String
  | equal => "="
  | notEqual => "<>"
  | less => "<"
  | lessEqual => "<="
  | greater => ">"
  | greaterEqual => ">="
  | like => "LIKE"

/-- The name in words. -/
def name : Comparison → String
  | equal => "Equal"
  | notEqual => "NotEqual"
  | less => "Less"
  | lessEqual => "LessEqual"
  | greater => "Greater"
  | greaterEqual => "GreaterEqual"
  | like => "Like"

/-- The operator of the given name. -/
def ofName? (text : String) : Option Comparison := all.find? (·.name == text)

/-- A symbol without surrounding blanks and in upper case. -/
def normalize (text : String) : String := Text.uppercase (Text.trim text)

/-- Reads a normalized symbol. -/
def ofNormalized? (text : String) : Option Comparison :=
  if text == "==" then some equal
  else if text == "!=" then some notEqual
  else all.find? (·.symbol == text)

/-- Reads a symbol. -/
def ofSymbol? (text : String) : Option Comparison := ofNormalized? (normalize text)

/-- The operator `op'` for which `a op b` means the same as `b op' a`. -/
def converse : Comparison → Comparison
  | less => greater
  | lessEqual => greaterEqual
  | greater => less
  | greaterEqual => lessEqual
  | op => op

def isEqual (op : Comparison) : Bool := op == equal

@[simp] theorem converse_converse (op : Comparison) : op.converse.converse = op := by
  cases op <;> rfl

end Comparison

end JoinPlanner
