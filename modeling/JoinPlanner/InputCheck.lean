import JoinPlanner.JoinGraph

/-!
# JoinPlanner — checks before the search

A check tells whether predicates can be ordered at all and, if not, which tables or
groups of tables are in the way.

* `InputCheck.ensure` — turns a failed check into its error.
* `checkLinked`       — the predicates can be joined without a cross product.
-/

namespace JoinPlanner

/-- What is in the way of a plan: a table, by its alias or its number, or a group of tables. -/
inductive Offender where
  | table (aliasName : Option String)
  | numbered (table : Int)
  | group (tables : List String)
  deriving DecidableEq, Repr

namespace Offender

/-- The offender as an error names it. -/
def value : Offender → Value
  | table aliasName => .ofOption aliasName
  | numbered n => .number (.whole n)
  | group tables => .list ((Text.distinct tables).map .text)

/-- The offender in a message. -/
def display : Offender → String
  | group [] => "frozenset()"
  | group tables =>
    "frozenset(\x7b" ++ ", ".intercalate ((Text.distinct tables).map Text.quoted) ++ "\x7d)"
  | offender => offender.value.display

/-- The members of a group; a text stands for its characters. -/
def members : Offender → Outcome (List String)
  | group tables => .ok tables
  | table (some aliasName) => .ok (aliasName.toList.map String.singleton)
  | offender => .error (.notIterable offender.value.typeName)

end Offender

/-- The one offender of several that an error can name: there is no other. -/
def soleOffender : List Offender → Value
  | [offender] => offender.value
  | _ => .null

/-- The reason of a check for tables that are not known. -/
def unknownTableReason : String := "UNKNOWN_TABLE"

/-- The reason of a check for groups of tables that are not linked. -/
def crossProductReason : String := "CROSS_PRODUCT"

/-- The result of a check. -/
structure InputCheck where
  passed : Bool
  reason : String
  offending : List Offender
  deriving DecidableEq, Repr

namespace InputCheck

/-- Nothing is in the way. -/
def success : InputCheck := ⟨true, "", []⟩

/-- The error of a failed check. -/
def ensure (check : InputCheck) : Outcome Unit :=
  if check.passed then .ok ()
  else if check.reason = unknownTableReason then
    .error (.unknownTables (soleOffender check.offending) (check.offending.map Offender.display))
  else if check.reason = crossProductReason then do
    throw (.noFeasiblePlan (← check.offending.mapM Offender.members))
  else .error (.unexpectedReason check.reason)

end InputCheck

/-- Whether the predicates can be ordered without a cross product. -/
def checkLinked (predicates : List Predicate) : Outcome InputCheck :=
  if predicates.isEmpty then .ok .success
  else do
    let components ← linkedGroups predicates
    if components.length = 1 then return .success
    else return ⟨false, crossProductReason, components.map .group⟩

end JoinPlanner
