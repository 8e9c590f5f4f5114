import JoinPlanner.Association
import JoinPlanner.Frame
import JoinPlanner.JoinMethod
import JoinPlanner.PlanTable

/-!
# JoinPlanner — explanations of plans

An explanation shows an order of joins as a tree. Every join is a node over the parts
that it joins: a part is an earlier join, or the scan of a table that no earlier join
has read. A join with a subplan has the subplan as a further part.

* `PlanNode`            — a node with its estimates.
* `Explanation.ofOrder` — the tree of an order with its estimates.
* `Explanation.toText`  — the tree as indented lines.
* `Explanation.frame`   — one row for each join.
-/

namespace JoinPlanner

/-- A node of a plan tree. -/
inductive PlanNode where
  | scan (table : Option String) (cost : Cost) (cardinality : Cardinality)
  | subplan
  | join (predicate : Predicate) (cost : Cost) (cardinality : Cardinality)
      (children : List PlanNode)
  deriving Repr

namespace PlanNode

/-- The cost of a subquery that has already been evaluated. -/
def noCost : Cost := .real Binary64.zero

def cost : PlanNode → Cost
  | scan _ cost _ => cost
  | subplan => noCost
  | join _ cost _ _ => cost

def cardinality : PlanNode → Cardinality
  | scan _ _ card => card
  | subplan => 0
  | join _ _ card _ => card

def children : PlanNode → List PlanNode
  | join _ _ _ children => children
  | _ => []

/-- The method that a join is computed by, if all of them are supported. -/
def method? : PlanNode → Option JoinMethod
  | join p _ _ _ => some (JoinMethod.choose JoinMethod.all p)
  | _ => none

/-- The table of a scan. -/
def table? : PlanNode → Option String
  | scan table _ _ => table
  | _ => none

/-- What a reader sees of the node itself. -/
def label : PlanNode → String
  | scan table _ _ => optionalName table
  | subplan => "Subplan"
  | join p _ _ _ => "Join " ++ p.toText

mutual

/-- The node and all nodes below it, each before its children. -/
def preorder : PlanNode → List PlanNode
  | join p cost card children => join p cost card children :: preorders children
  | node => [node]

def preorders : List PlanNode → List PlanNode
  | [] => []
  | node :: rest => preorder node ++ preorders rest

end

/-- The line of a node at some depth. -/
def line (depth : Nat) (node : PlanNode) : String :=
  String.join (List.replicate depth "  ") ++ (if depth = 0 then "" else "-> ") ++ node.label
    ++ " (cost=" ++ node.cost.toText ++ s!", card={node.cardinality})"

mutual

/-- The lines of a tree whose root stands at some depth. -/
def lines (depth : Nat) : PlanNode → List String
  | join p cost card children =>
    line depth (join p cost card children) :: linesOf (depth + 1) children
  | node => [line depth node]

def linesOf (depth : Nat) : List PlanNode → List String
  | [] => []
  | node :: rest => lines depth node ++ linesOf depth rest

end

/-- The fields that all documents of nodes have. -/
def estimateFields (cost : Cost) (card : Cardinality) : List (String × Json.Document) :=
  [("cost", .number cost), ("cardinality", .int card)]

mutual

/-- The tree as a document. -/
def document : PlanNode → Json.Document
  | scan table cost card => .ofFields (("table", .ofOption table) :: estimateFields cost card)
  | subplan => .ofFields (("table", .null) :: estimateFields noCost 0)
  | join p cost card children =>
    .ofFields ([("join", p.document),
        ("operator", .text (JoinMethod.choose JoinMethod.all p).toText)]
      ++ estimateFields cost card ++ [("children", .list (documents children))])

def documents : List PlanNode → List Json.Document
  | [] => []
  | node :: rest => document node :: documents rest

end

end PlanNode

-- ---------------------------------------------------------------------------
-- Building the tree
-- ---------------------------------------------------------------------------

/-- The scan estimates of tables. -/
abbrev ScanEstimates := Association (Option String) Estimate

/--
The joins that have been placed, in order, and for each table that was read the
number of the join that holds it now.
-/
structure Placement where
  steps : List PlanNode
  holders : Association (Option String) Nat
  deriving Repr

namespace Placement

def empty : Placement := ⟨[], []⟩

/-- The parts that a join reads so far, and the numbers of the earlier joins among them. -/
structure Parts where
  children : List PlanNode
  joined : List Nat

/--
Adds the part that holds a table: the earlier join, unless it is there already, or a
scan of the table.
-/
def addPart (placed : Placement) (scans : ScanEstimates) (parts : Parts)
    (table : Option String) : Outcome Parts :=
  match placed.holders.get? table with
  | some i =>
    if parts.joined.contains i then .ok parts
    else .ok ⟨parts.children ++ placed.steps[i]?.toList, parts.joined ++ [i]⟩
  | none =>
    match scans.get? table with
    | some (cost, card) => .ok { parts with children := parts.children ++ [.scan table cost card] }
    | none => .error (.noScanEstimate table)

/-- The tables on the sides of a predicate, each once. -/
def sides (p : Predicate) : List (Option String) :=
  match p.kind with
  | .subplan => [p.left.table]
  | .table => [p.left.table, p.right.table].eraseDups

/--
Places the next join. Its tables are held by it from now on; if it reads an earlier
join, so are all tables that were read before.
-/
def place (scans : ScanEstimates) (placed : Placement) (step : Predicate × Estimate) :
    Outcome Placement := do
  let (p, cost, card) := step
  let parts ← (sides p).foldlM (addPart placed scans) ⟨[], []⟩
  let children := if p.isSubplan then parts.children ++ [.subplan] else parts.children
  let number := placed.steps.length
  let held := (sides p).foldl (fun acc table => acc.put table number) placed.holders
  return {
    steps := placed.steps ++ [.join p cost card children]
    holders := if parts.joined.isEmpty then held else held.map fun e => (e.1, number) }

end Placement

/-- The tree of an order of joins. -/
structure Explanation where
  order : List Predicate
  /-- The joins in the order in which they are executed. -/
  steps : List PlanNode
  deriving Repr

namespace Explanation

/-- The last join. -/
def root? (e : Explanation) : Option PlanNode := e.steps.getLast?

def cost (e : Explanation) : Cost := (e.root?.map PlanNode.cost).getD PlanNode.noCost

def cardinality (e : Explanation) : Cardinality := (e.root?.map PlanNode.cardinality).getD 0

/--
The tree of an order. Each join has the estimates after it was executed, and each
table the estimates of its scan.
-/
def ofOrder (order : List Predicate) (estimates : List Estimate) (scans : ScanEstimates) :
    Outcome Explanation :=
  if order.length ≠ estimates.length then .error .estimatesMissing
  else do
    let placed ← (order.zip estimates).foldlM (Placement.place scans) Placement.empty
    return ⟨order, placed.steps⟩

/-- The tree as indented lines. -/
def toText (e : Explanation) : String :=
  match e.root? with
  | none => "No joins in plan."
  | some root => "\n".intercalate (root.lines 0)

/-- The order and the tree as a document. -/
def document (e : Explanation) : Json.Document :=
  .ofFields [
    ("join_order", .list (e.order.map Predicate.document)),
    ("plan", (e.root?.map PlanNode.document).getD .null)]

/-- The columns of the frame of an explanation. -/
def frameColumns : List String := ["step", "join", "operator", "cost", "cardinality"]

/-- The row of a join. -/
def frameRow (number : Nat) (node : PlanNode) : Association String Value :=
  let join := match node with | .join p _ _ _ => p.toText | _ => ""
  [("step", .number (.whole number)),
    ("join", .text join),
    ("operator", Value.ofOption (node.method?.map JoinMethod.toText)),
    ("cost", .number node.cost),
    ("cardinality", .number (.whole node.cardinality))]

/-- One row for each join, in the order of execution. -/
def frame (e : Explanation) : Outcome Frame :=
  Frame.ofRows (e.steps.zipIdx.map fun (node, i) => frameRow i node) frameColumns

end Explanation

end JoinPlanner
