import JoinPlanner.Comparison
import JoinPlanner.Schema
import JoinPlanner.Text.Order
import JoinPlanner.Value

/-!
# JoinPlanner — errors

* `PlannerError` — the causes for which an operation fails.
* `ErrorKind`    — what a caller can tell errors apart by; kinds form a forest.
* `Failure`      — what is reported of an error: its kind, its wording, and the
  table or the components that it is about.
* `PlannerError.failure` — the report of a cause.
-/

namespace JoinPlanner

-- ---------------------------------------------------------------------------
-- Kinds
-- ---------------------------------------------------------------------------

/-- The kinds of errors. -/
inductive ErrorKind where
  | invalidValue
  | invalidType
  /-- There is no comparison for values of some types. -/
  | noComparison
  /-- Arithmetic without a result in its range. -/
  | overflow
  | missingKey
  | outOfBounds
  | inputOutput
  | missingFile
  | failedRun
  /-- Something was asked of a thing that is not there. -/
  | missingObject
  /-- A broken internal assumption. -/
  | logic
  /-- An operation was asked for before its prerequisites were met. -/
  | state
  | statistics
  | invalidRange
  | unsupportedOperator
  | optimization
  | unknownTable
  | noFeasiblePlan
  deriving DecidableEq, Repr

/-- The more general kinds, from the nearest to the most general. -/
def ErrorKind.ancestors : ErrorKind → List ErrorKind
  | .invalidRange | .unsupportedOperator => [.invalidValue]
  | .noComparison => [.invalidType]
  | .statistics => [.state, .failedRun]
  | .unknownTable | .noFeasiblePlan => [.optimization, .failedRun]
  | .logic | .state | .optimization => [.failedRun]
  | .missingFile => [.inputOutput]
  | _ => []

-- ---------------------------------------------------------------------------
-- Reports
-- ---------------------------------------------------------------------------

/-- The report of an error. -/
structure Failure where
  kind : ErrorKind
  message : String
  /-- The table that the error is about, for the kinds that name one. -/
  table : Option Value := none
  /-- The disconnected groups of tables, for the kind that lists them. -/
  components : Option (List (List String)) := none
  /-- The kind of the error behind this one. -/
  cause : Option ErrorKind := none
  deriving Repr

namespace Failure

/-- A wording of the caller's, or the given one if there is nothing to that. -/
def wording (custom : Value) (standard : String) : String :=
  if custom.isBlank then standard else custom.display

def invalidRange (low high custom : Value) : Failure :=
  { kind := .invalidRange
    message := wording custom
      ("Invalid histogram domain [" ++ low.display ++ ", " ++ high.display
        ++ "]: max must not be smaller than min") }

def unsupportedOperator (operator : Value) : Failure :=
  { kind := .unsupportedOperator, message := "Unsupported operator: " ++ operator.display }

def statistics (table custom : Value) (cause : Option ErrorKind) : Failure :=
  { kind := .statistics
    message := wording custom ("Could not compute statistics for table " ++ table.display)
    table := some table
    cause := cause }

def optimization (custom : Value) : Failure :=
  { kind := .optimization, message := wording custom "Join order optimization failed" }

def unknownTable (table custom : Value) : Failure :=
  { kind := .unknownTable
    message := wording custom ("Unknown table " ++ table.display)
    table := some table }

/-- Every group is listed in order, each table once. -/
def noFeasiblePlan (components : List (List String)) : Failure :=
  let groups := components.map Text.distinct
  { kind := .noFeasiblePlan
    message := "No join order without cross products exists. Disconnected tables: "
      ++ " | ".intercalate (groups.map (", ".intercalate ·))
    components := some groups }

end Failure

-- ---------------------------------------------------------------------------
-- Causes
-- ---------------------------------------------------------------------------

/-- Why the tuples of a table could not be read. -/
inductive StorageError where
  | missingFile (table : Int)
  | cannotOpen (table : Int)
  | readFailed (after : Int)
  deriving DecidableEq, Repr

namespace StorageError

def message : StorageError → String
  | missingFile table => s!"No heap file for table {table}"
  | cannotOpen table => s!"Cannot open heap file of table {table}"
  | readFailed after => s!"Read error after {after} tuples"

def kind : StorageError → ErrorKind
  | missingFile _ => .missingFile
  | cannotOpen _ | readFailed _ => .inputOutput

end StorageError

/-- Why an operation failed. Aliases are absent where a predicate has none. -/
inductive PlannerError where
  | number (cause : NumberError)
  /-- A normalized symbol that no operator has. -/
  | unknownSymbol (symbol : String)
  | unqualifiedName (name : String)
  | noSuchColumn (name : String) (schema : Schema)
  | noSuchPosition (position : Int) (schema : Schema)
  | invalidRange (low high : Int)
  | invalidTextRange (low high : String)
  /-- A text that stands for no integer. -/
  | notInteger (text : String)
  | tooManyDigits (count : Nat)
  | divisionByZero
  | negativeLength
  | noBuckets (requested : Int)
  | outsideDomain (value low high : Int)
  | unsupportedOperator (operator : Comparison)
  /-- Two values, given by the names of their types, have no order. -/
  | incomparable (symbol left right : String)
  /-- A comparison is not there for the types of two values. -/
  | noComparison (operation : String)
  /-- A comparison has several answers. -/
  | ambiguousTruth
  /-- A comparison has no answer at all. -/
  | emptyTruth
  /-- Rows of different lengths, with the shape of the levels above. -/
  | raggedGrid (shape : List Nat)
  /-- Two grids do not fit side by side. -/
  | shapeMismatch (left right : List Nat)
  /-- Rows of rows beyond the number of levels that a grid has. -/
  | tooManyLevels (most : Nat)
  /-- A text has no next one. -/
  | noNextText
  | notText (type : String)
  | shortRow
  | keyNotInSchema (key : String) (schema : Schema)
  | rowMismatch (row : Row) (schema : Schema)
  | noSuchTable (name : String)
  | noSuchTableId (table : Int)
  | tupleTooLarge (table : String) (pageSize : Int)
  | storage (cause : StorageError)
  | scanFailed (table : Int) (cause : StorageError)
  | nullNode
  /-- Several tables, by their names, and the one that the error is about if it is the only one. -/
  | unknownTables (sole : Value) (names : List String)
  | unknownAlias (aliasName : Option String)
  | noStatistics (table : String) (aliasName : Option String)
  | noSelectivity (aliasName : Option String)
  | noFeasiblePlan (components : List (List String))
  | unexpectedReason (reason : String)
  | missingPlan
  | noPlans
  | notOrdered
  | negativeSubsetSize (size : Int)
  /-- A progression that does not go on. -/
  | zeroStep
  | estimatesMissing
  /-- A predicate, by its text, that is none of the joins at hand. -/
  | unknownJoin (text : String)
  | noScanEstimate (aliasName : Option String)
  | missingEntry (column : String)
  | notSerializable (type : String)
  | unhashable (type : String)
  | notIterable (type : String)
  /-- The first of several items to be joined to a text is none. -/
  | itemNotText (type : String)
  /-- A number that no document may hold, with its text where that is shown. -/
  | nonFiniteNumber (shown : Option String)
  | badKey (type : String)
  | unknownName (name : String)
  deriving Repr

namespace PlannerError

/-- The kind of a failed conversion. -/
def ofNumber : NumberError → ErrorKind
  | .undefinedToInteger => .invalidValue
  | _ => .overflow

/-- The text of a shape, with the given text between two levels. -/
def shapeText (separator : String) (shape : List Nat) : String :=
  "(" ++ separator.intercalate (shape.map toString) ++ (if shape.length = 1 then ",)" else ")")

/-- The report of a cause. -/
def failure : PlannerError → Failure
  | number cause => { kind := ofNumber cause, message := cause.message }
  | unknownSymbol symbol =>
    { kind := .invalidValue, message := Text.quoted symbol ++ " is not a valid ComparisonOperator" }
  | unqualifiedName name =>
    { kind := .invalidValue
      message := "Not a quantified field name: '" ++ name ++ "'. Expected format is 'alias.field'" }
  | noSuchColumn name schema =>
    { kind := .missingKey, message := "No field named '" ++ name ++ "' in " ++ schema.toText }
  | noSuchPosition position schema =>
    { kind := .outOfBounds
      message := s!"Field index {position} out of bounds for " ++ schema.toText }
  | invalidRange low high =>
    Failure.invalidRange (.number (.whole low)) (.number (.whole high)) .null
  | invalidTextRange low high => Failure.invalidRange (.text low) (.text high) .null
  | notInteger text =>
    { kind := .invalidValue
      message := "invalid literal for int() with base 10: "
        ++ String.ofList ((Text.quoted text).toList.take 200) }
  | tooManyDigits count =>
    { kind := .invalidValue
      message := "Exceeds the limit (4300 digits) for integer string conversion: value has "
        ++ s!"{count} digits; use sys.set_int_max_str_digits() to increase the limit" }
  | divisionByZero => { kind := .overflow, message := "division by zero" }
  | negativeLength => { kind := .invalidValue, message := "negative dimensions are not allowed" }
  | noBuckets requested =>
    { kind := .invalidValue
      message := s!"Histogram requires at least one bucket, not {requested}" }
  | outsideDomain value low high =>
    { kind := .invalidValue
      message := s!"Value {value} outside of histogram domain [{low}, {high}]" }
  | unsupportedOperator operator => Failure.unsupportedOperator (.text operator.symbol)
  | incomparable symbol left right =>
    { kind := .invalidType
      message := "'" ++ symbol ++ "' not supported between instances of '" ++ left ++ "' and '"
        ++ right ++ "'" }
  | noComparison operation =>
    { kind := .noComparison, message := "<ufunc '" ++ operation ++ "'>" }
  | ambiguousTruth =>
    { kind := .invalidValue
      message := "The truth value of an array with more than one element is ambiguous. "
        ++ "Use a.any() or a.all()" }
  | emptyTruth =>
    { kind := .invalidValue
      message := "The truth value of an empty array is ambiguous. "
        ++ "Use `array.size > 0` to check that an array is not empty." }
  | raggedGrid shape =>
    { kind := .invalidValue
      message := "setting an array element with a sequence. The requested array has an "
        ++ s!"inhomogeneous shape after {shape.length} dimensions. The detected shape was "
        ++ shapeText ", " shape ++ " + inhomogeneous part." }
  | shapeMismatch left right =>
    { kind := .invalidValue
      message := "operands could not be broadcast together with shapes "
        ++ shapeText "," left ++ " " ++ shapeText "," right ++ " " }
  | tooManyLevels most =>
    { kind := .invalidValue
      message := "setting an array element with a sequence. The requested array would exceed "
        ++ s!"the maximum number of dimension of {most}." }
  | noNextText =>
    { kind := .invalidType, message := "can only concatenate str (not \"int\") to str" }
  | notText type =>
    { kind := .invalidType, message := "object of type '" ++ type ++ "' has no len()" }
  | shortRow => { kind := .outOfBounds, message := "tuple index out of range" }
  | keyNotInSchema key schema =>
    { kind := .invalidValue
      message := "Primary key '" ++ key ++ "' is not a field of " ++ schema.toText }
  | rowMismatch row schema =>
    { kind := .invalidValue
      message := "Row " ++ rowText row ++ " does not match schema " ++ schema.toText }
  | noSuchTable name => { kind := .missingKey, message := name }
  | noSuchTableId table => { kind := .missingKey, message := toString table }
  | tupleTooLarge table pageSize =>
    { kind := .invalidValue
      message := "Tuples of table " ++ table ++ s!" do not fit on a page of {pageSize} bytes" }
  | storage cause => { kind := cause.kind, message := cause.message }
  | scanFailed table cause =>
    Failure.statistics (.number (.whole table))
      (.text (s!"Could not scan table {table}: " ++ cause.message)) (some cause.kind)
  | nullNode => { kind := .invalidValue, message := "None cannot be a node" }
  | unknownTables sole names =>
    Failure.unknownTable sole (.text ("Unknown tables: " ++ ", ".intercalate names))
  | unknownAlias aliasName => Failure.unknownTable (.ofOption aliasName) .null
  | noStatistics table aliasName =>
    Failure.unknownTable (.ofOption aliasName)
      (.text ("No statistics for table " ++ table ++ " (alias " ++ optionalName aliasName ++ ")"))
  | noSelectivity aliasName =>
    Failure.unknownTable (.ofOption aliasName)
      (.text ("No filter selectivity for table " ++ optionalName aliasName))
  | noFeasiblePlan components => Failure.noFeasiblePlan components
  | unexpectedReason reason =>
    { kind := .logic, message := "Unexpected failure reason: " ++ reason }
  | missingPlan => { kind := .logic, message := "No cached plan for join order prefix" }
  | noPlans =>
    { kind := .missingObject, message := "'NoneType' object has no attribute 'clear'" }
  | notOrdered => { kind := .state, message := "No join order has been computed yet" }
  | negativeSubsetSize size =>
    { kind := .invalidValue, message := s!"Subset size must not be negative, but was {size}" }
  | zeroStep => { kind := .invalidValue, message := "range() arg 3 must not be zero" }
  | estimatesMissing => { kind := .invalidValue, message := "Estimates required for each join" }
  | unknownJoin text => { kind := .missingKey, message := text }
  | noScanEstimate aliasName => { kind := .missingKey, message := optionalName aliasName }
  | missingEntry column => { kind := .missingKey, message := column }
  | notSerializable type =>
    { kind := .invalidType, message := "Object of type " ++ type ++ " is not JSON serializable" }
  | unhashable type => { kind := .invalidType, message := "unhashable type: '" ++ type ++ "'" }
  | notIterable type =>
    { kind := .invalidType, message := "'" ++ type ++ "' object is not iterable" }
  | itemNotText type =>
    { kind := .invalidType
      message := "sequence item 0: expected str instance, " ++ type ++ " found" }
  | nonFiniteNumber shown =>
    { kind := .invalidValue
      message := "Out of range float values are not JSON compliant"
        ++ (match shown with | none => "" | some text => ": " ++ text) }
  | badKey type =>
    { kind := .invalidType
      message := "keys must be str, int, float, bool or None, not " ++ type }
  | unknownName name => { kind := .missingKey, message := name }

end PlannerError

/-- The outcome of an operation that may fail. -/
abbrev Outcome := Except PlannerError

/-- A failed conversion is a failure of the operation. -/
def Outcome.ofNumber {α : Type} : Except NumberError α → Outcome α
  | .ok x => .ok x
  | .error e => .error (.number e)

instance : MonadLift (Except NumberError) Outcome where
  monadLift := Outcome.ofNumber

end JoinPlanner
