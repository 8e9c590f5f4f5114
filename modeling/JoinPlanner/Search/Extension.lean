import JoinPlanner.PlanTable
import JoinPlanner.Search.Setting

/-!
# JoinPlanner — extending a plan

A left-deep plan grows by one join at a time. The plan so far, if there is one, is an
input of the next join, on the side of the table that they share; the other input is
a fresh scan, or the subplan of a subquery. Of the two orientations the given one
stays unless the exchanged one is strictly cheaper; a subplan is always the inner
input.

* `Setting.inputs?` — the inputs of the next join; none if it shares no table.
* `orient`          — the cheaper orientation.
* `Setting.extend`  — the extended plan.
* `Setting.extendBelow` — the extended plan, unless it costs as much as a bound.
* `Setting.replay`  — the plan that executes joins in a given order.
-/

namespace JoinPlanner

/-- An input of a join. -/
structure JoinInput where
  cost : Cost
  cardinality : Cardinality
  /-- Whether a primary key takes part. -/
  key : Bool
  deriving DecidableEq, Repr

/-- Whether some predicate joins the table; an absent table is joined by none. -/
def joinsTable (order : List Predicate) (table : Option String) : Bool :=
  table.isSome && order.any (·.joins table)

namespace Setting

-- ---------------------------------------------------------------------------
-- Inputs
-- ---------------------------------------------------------------------------

/-- A scan of the table on one side. -/
def scanInput (s : Setting) (side : Operand) : Outcome JoinInput := do
  let (cost, cardinality) ← s.scanOf side.table
  return { cost, cardinality, key := ← s.isKey side }

/-- The right side of a predicate, read afresh; a subplan is there already. -/
def innerInput (s : Setting) (p : Predicate) : Outcome JoinInput :=
  if p.isSubplan then .ok ⟨.real Binary64.zero, 0, false⟩ else s.scanInput p.right

/-- The plan so far. -/
def planInput (s : Setting) (plan : Plan) : Outcome JoinInput :=
  return ⟨plan.cost, plan.cardinality, ← s.hasKey plan.order⟩

/-- The left and the right input of the next join. -/
def inputs? (s : Setting) (previous : Option Plan) (p : Predicate) :
    Outcome (Option (JoinInput × JoinInput)) :=
  match previous with
  | none => do
    let left ← s.scanInput p.left
    let right ← s.innerInput p
    return some (left, right)
  | some plan =>
    if joinsTable plan.order p.left.table then do
      let left ← s.planInput plan
      let right ← s.innerInput p
      return some (left, right)
    else if !p.isSubplan && joinsTable plan.order p.right.table then do
      let right ← s.planInput plan
      let left ← s.scanInput p.left
      return some (left, right)
    else return none

end Setting

-- ---------------------------------------------------------------------------
-- Orientation
-- ---------------------------------------------------------------------------

/-- A join with its inputs and its cost. -/
structure Oriented where
  join : Predicate
  left : JoinInput
  right : JoinInput
  cost : Cost
  deriving DecidableEq, Repr

/-- The join with the given orientation. -/
def asGiven (p : Predicate) (left right : JoinInput) : Except NumberError Oriented :=
  return ⟨p, left, right,
    ← joinCost p left.cardinality right.cardinality left.cost right.cost⟩

/-- The cheaper orientation of a join; the given one if both cost the same. -/
def orient (p : Predicate) (left right : JoinInput) : Except NumberError Oriented := do
  let given ← asGiven p left right
  if p.isSubplan then return given
  let exchanged ← asGiven p.flipped right left
  return if exchanged.cost.lt given.cost then exchanged else given

namespace Setting

-- ---------------------------------------------------------------------------
-- Extension
-- ---------------------------------------------------------------------------

/-- The joins of the plan so far. -/
def orderOf (previous : Option Plan) : List Predicate := (previous.map Plan.order).getD []

/-- The plan that ends with an oriented join. -/
def complete (s : Setting) (previous : Option Plan) (o : Oriented) : Outcome Plan :=
  return { cost := o.cost
           cardinality := ← s.joinCardinality o.join o.left.cardinality o.right.cardinality
             o.left.key o.right.key
           order := orderOf previous ++ [o.join] }

/-- The plan so far with one more join; none if they share no table. -/
def extend (s : Setting) (previous : Option Plan) (p : Predicate) : Outcome (Option Plan) := do
  match ← s.inputs? previous p with
  | none => return none
  | some (left, right) => return some (← s.complete previous (← orient p left right))

/-- The extended plan, if it is cheaper than a bound. Others are not worked out. -/
def extendBelow (s : Setting) (bound : Cost) (previous : Option Plan) (p : Predicate) :
    Outcome (Option Plan) := do
  match ← s.inputs? previous p with
  | none => return none
  | some (left, right) =>
    let o ← orient p left right
    if bound.le o.cost then return none
    return some (← s.complete previous o)

/-- The plan that executes joins one after another; none if one of them shares no table. -/
def replay (s : Setting) (previous : Option Plan) : List Predicate → Outcome (Option Plan)
  | [] => .ok previous
  | p :: rest => do
    match ← s.extend previous p with
    | none => return none
    | some plan => s.replay (some plan) rest

end Setting

end JoinPlanner
