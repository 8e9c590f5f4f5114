import JoinPlanner.Predicate

/-!
# JoinPlanner — the join graph

The tables of a list of predicates are the nodes; two tables are linked if a
predicate joins them. A join with a subplan adds its own table only.

* `JoinGraph.ofPredicates` — the graph with the predicates on its edges; absent
  tables cannot be nodes.
* `JoinGraph.components`   — the groups of linked tables, each sorted, in the order
  of their smallest tables.
-/

namespace JoinPlanner

/-- Two linked tables with the predicates that join them, in order. -/
structure Edge where
  left : String
  right : String
  predicates : List Predicate
  deriving Repr

/-- Whether the edge links the two tables, in either direction. -/
def Edge.links (e : Edge) (a b : String) : Bool :=
  (e.left == a && e.right == b) || (e.left == b && e.right == a)

/-- The linked tables in increasing order. -/
def Edge.ends (e : Edge) : List String := Text.sorted [e.left, e.right]

/-- The tables of predicates and the links between them. -/
structure JoinGraph where
  nodes : List String
  edges : List Edge
  deriving Repr

namespace JoinGraph

def empty : JoinGraph := ⟨[], []⟩

/-- Adds a table, once. -/
def addNode (graph : JoinGraph) (table : String) : JoinGraph :=
  if graph.nodes.contains table then graph
  else { graph with nodes := graph.nodes ++ [table] }

/-- Adds a predicate to the edge of two tables, or as a new edge. -/
def linkEdges (edges : List Edge) (a b : String) (p : Predicate) : List Edge :=
  match edges with
  | [] => [⟨a, b, [p]⟩]
  | e :: rest =>
    if e.links a b then { e with predicates := e.predicates ++ [p] } :: rest
    else e :: linkEdges rest a b p

/-- Adds the tables of a predicate and the link between them. -/
def addPredicate (graph : JoinGraph) (p : Predicate) : Outcome JoinGraph :=
  match p.kind, p.left.table, p.right.table with
  | .subplan, some a, _ => .ok (graph.addNode a)
  | .table, some a, some b =>
    let graph := (graph.addNode a).addNode b
    .ok { graph with edges := linkEdges graph.edges a b p }
  | _, _, _ => .error .nullNode

/-- The graph of a list of predicates. -/
def ofPredicates (predicates : List Predicate) : Outcome JoinGraph :=
  predicates.foldlM addPredicate empty

/-- The edges in the order of their tables. -/
def sortedEdges (graph : JoinGraph) : List Edge :=
  sortBy (fun a b => Text.orderedLists a.ends b.ends) graph.edges

-- ---------------------------------------------------------------------------
-- Components
-- ---------------------------------------------------------------------------

/-- Merges all groups that hold one of two linked tables. -/
def mergeGroups (groups : List (List String)) (e : Edge) : List (List String) :=
  let touched (group : List String) : Bool := group.contains e.left || group.contains e.right
  (groups.filter touched).flatten :: groups.filter fun group => !touched group

/-- The groups of linked tables, in no particular order. -/
def groups (graph : JoinGraph) : List (List String) :=
  graph.edges.foldl mergeGroups (graph.nodes.map fun table => [table])

/-- The groups of linked tables, each sorted, by their smallest tables. -/
def components (graph : JoinGraph) : List (List String) :=
  Text.sortedOn (fun group => group.headD "") (graph.groups.map Text.sorted)

end JoinGraph

/-- The groups of tables that are linked by the predicates. -/
def linkedGroups (predicates : List Predicate) : Outcome (List (List String)) :=
  return (← JoinGraph.ofPredicates predicates).components

end JoinPlanner
