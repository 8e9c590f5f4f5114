import JoinPlanner.Error

/-!
# JoinPlanner — errors raised by a caller

A caller who raises an error describes it by values. The groups of tables of an error
about disconnected tables may be any collections of texts.

* `Failure.noFeasiblePlanOf` — the report about a collection of groups.
* `Failure.raised`           — the report of an error of some kind with some values.
-/

namespace JoinPlanner

namespace Failure

/-- What a collection is made of. -/
def itemsOf (value : Value) : Outcome (List Value) :=
  match value.items? with
  | some items => .ok items
  | none => .error (.notIterable value.typeName)

/-- The members of a group; none of them may be able to change. -/
def groupOf (value : Value) : Outcome (List Value) := do
  let items ← itemsOf value
  match items.findSome? Value.changeable? with
  | some type => throw (.unhashable type)
  | none => return items

/-- The one of two members that comes first in order. -/
def earlier (a b : Value) : Outcome Value :=
  match a, b with
  | .text s, .text t => .ok (if t < s then b else a)
  | .null, .null => .ok a
  | _, _ =>
    match a.number?, b.number? with
    | some x, some y => .ok (if Number.lt y x then b else a)
    | _, _ => .error (.incomparable "<" b.typeName a.typeName)

/-- The members of a group as texts, if they are: then the first in order is one. -/
def groupTexts : List Value → Outcome (List String)
  | [] => .ok []
  | member :: rest => do
    match ← rest.foldlM earlier member with
    | .text _ => return (member :: rest).map Value.display
    | first => throw (.itemNotText first.typeName)

/-- The report about groups of tables that are not linked. -/
def noFeasiblePlanOf (components : Value) : Outcome Failure := do
  let groups ← (← itemsOf components).mapM groupOf
  return noFeasiblePlan (← groups.mapM groupTexts)

/--
The report of an error that is raised with some values; none for kinds that are not
raised by callers, or not with so many values.
-/
def raised : ErrorKind → List Value → Option (Outcome Failure)
  | .invalidRange, low :: high :: rest => some (.ok (invalidRange low high (rest.headD .null)))
  | .unsupportedOperator, [operator] => some (.ok (unsupportedOperator operator))
  | .statistics, table :: rest => some (.ok (statistics table (rest.headD .null) none))
  | .optimization, rest => some (.ok (optimization (rest.headD .null)))
  | .unknownTable, table :: rest => some (.ok (unknownTable table (rest.headD .null)))
  | .noFeasiblePlan, [components] => some (noFeasiblePlanOf components)
  | .logic, rest => some (.ok { kind := .logic, message := (rest.headD (.text "")).display })
  | .state, rest => some (.ok { kind := .state, message := (rest.headD (.text "")).display })
  | _, _ => none

end Failure

end JoinPlanner
