import JoinPlanner.KnownTables

/-!
# JoinPlanner — what a search reckons with

A search reads the catalog, the statistics of the tables, and the selectivities of
their filters. From these follow the estimates of a scan, the question whether a
column is a key, and the cardinality of a join.

* `Setting.statsOf`  — the statistics behind an alias.
* `Setting.scanOf`   — cost and cardinality of a filtered scan.
* `Setting.isKey`, `Setting.hasKey` — key columns, of one side and of a whole order.
* `Setting.joinCardinality` — the tuples that a join produces.
-/

namespace JoinPlanner

/-- All that a search depends on, besides the predicates. -/
structure Setting where
  catalog : Catalog
  stats : Snapshot
  selectivities : Selectivities
  /-- The fraction of all pairs that passes a join other than an equality. -/
  fraction : Quantity
  deriving Repr

namespace Setting

/-- The statistics of the table that an alias stands for. -/
def statsOf (s : Setting) (aliasName : Option String) : Outcome TableStats :=
  match s.catalog.resolve aliasName with
  | none => .error (.unknownAlias aliasName)
  | some id => do
    let table ← s.catalog.table id
    match s.stats.get? table.name with
    | some stats => return stats
    | none => throw (.noStatistics table.name aliasName)

/-- The cost of reading a table, and how many of its tuples pass the filter. -/
def scanOf (s : Setting) (aliasName : Option String) : Outcome Estimate :=
  match aliasName.bind s.selectivities.get? with
  | none => .error (.noSelectivity aliasName)
  | some selectivity => do
    let stats ← s.statsOf aliasName
    return (← stats.scanCost, ← stats.cardinality selectivity)

/-- Whether a side is the primary key of its table; an absent name is none. -/
def isKey (s : Setting) (side : Operand) : Outcome Bool :=
  match side.table, side.column with
  | some aliasName, some column =>
    match s.catalog.resolve (some aliasName) with
    | none => .error (.unknownAlias (some aliasName))
    | some id => return (← s.catalog.table id).primaryKey == column
  | _, _ => .ok false

/-- Whether a side of some predicate is a primary key. -/
def hasKey (s : Setting) : List Predicate → Outcome Bool
  | [] => .ok false
  | p :: rest => do
    if ← s.isKey p.left then return true
    else if ← s.isKey p.right then return true
    else s.hasKey rest

/-- The tuples that a join produces; a join with a subplan keeps those of its table. -/
def joinCardinality (s : Setting) (p : Predicate) (leftCard rightCard : Cardinality)
    (leftKey rightKey : Bool) : Outcome Cardinality :=
  if p.isSubplan then .ok leftCard
  else do
    let leftTotal := (← s.statsOf p.left.table).tuples
    let rightTotal := (← s.statsOf p.right.table).tuples
    JoinPlanner.joinCardinality p.operator leftCard rightCard leftKey rightKey leftTotal rightTotal
      s.fraction

end Setting

end JoinPlanner
