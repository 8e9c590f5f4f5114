import JoinPlanner.Planner.Basic

/-!
# JoinPlanner — workspaces

A workspace holds a catalog, two registries of statistics, and names for statistics,
snapshots and planners. Commands look things up by their names and change the
workspace; a change that was made before a command fails stays.

* `Command`       — a change of the workspace with its events and its outcome.
* `takeStats`, `selectivity`, `takeAll` — commands on statistics.
* `takeSnapshot`, `snapshotOr` — snapshots of a registry.
* `withPlanner`, `orderJoins`  — commands on planners.
-/

namespace JoinPlanner

/-- The two registries of a workspace. -/
inductive RegistryChoice where
  /-- The one that can be exchanged as a whole. -/
  | own
  /-- The one that is always there. -/
  | standard
  deriving DecidableEq, Repr

/-- A catalog with named statistics, snapshots and planners. -/
structure Workspace where
  catalog : Catalog
  own : Registry := .empty
  standard : Registry := .empty
  handles : Association String TableStats := []
  snapshots : Association String Snapshot := []
  planners : Association String Planner := []
  /-- The histograms that are remembered, by the serial numbers of their statistics. -/
  memos : Association Nat Memo := []
  /-- The serial number of the next statistics. -/
  nextSerial : Nat := 0
  deriving Repr

/-- A change of a workspace, with the events on its way and its outcome. -/
def Command (α : Type) := Workspace → Workspace × Traced α

namespace Command

variable {α β : Type}

/-- Goes on after a success, in the workspace that was left behind. -/
def andThen (x : Command α) (f : α → Command β) : Command β := fun w =>
  let (w, first) := x w
  match first.outcome with
  | .error e => (w, ⟨first.events, .error e⟩)
  | .ok a =>
    let (w, second) := f a w
    (w, ⟨first.events ++ second.events, second.outcome⟩)

instance : Monad Command where
  pure a := fun w => (w, .ofOutcome (.ok a))
  bind := andThen

instance : MonadLift Traced Command where
  monadLift x := fun w => (w, x)

instance : MonadLift Outcome Command where
  monadLift x := fun w => (w, .ofOutcome x)

/-- The workspace. -/
def read : Command Workspace := fun w => (w, .ofOutcome (.ok w))

/-- Changes the workspace. -/
def update (f : Workspace → Workspace) : Command Unit := fun w => (f w, .ofOutcome (.ok ()))

/-- What goes by a name. -/
def named (entries : Workspace → Association String α) (name : String) : Command α := fun w =>
  match (entries w).get? name with
  | some x => (w, .ofOutcome (.ok x))
  | none => (w, .ofOutcome (.error (.unknownName name)))

/-- A change of the catalog, which may keep a part of it when it fails. -/
def onCatalog (change : Catalog → Catalog × Outcome α) : Command α := fun w =>
  let (catalog, outcome) := change w.catalog
  ({ w with catalog }, .ofOutcome outcome)

end Command

namespace Workspace

open Command

/-- A workspace with nothing but an empty catalog. -/
def create (pageSize : Int) : Workspace := { catalog := .empty pageSize }

-- ---------------------------------------------------------------------------
-- Statistics
-- ---------------------------------------------------------------------------

/-- The statistics of a name. -/
def handle (name : String) : Command TableStats := named handles name

/-- Gives a name to statistics. -/
def keep (name : String) (stats : TableStats) : Command Unit :=
  update fun w => { w with handles := w.handles.put name stats }

/-- Takes the statistics of a table and gives them a name. -/
def takeStats (name : String) (id : Int) (options : StatsOptions) : Command TableStats := do
  let w ← read
  let stats ← (TableStats.take w.catalog options w.nextSerial id : Outcome TableStats)
  update fun w => { w with nextSerial := w.nextSerial + 1 }
  keep name stats
  return stats

/-- The estimate for a filter, from a remembered histogram if there is one. -/
def selectivity (name : String) (column : ColumnRef) (op : Comparison) (constant : Constant) :
    Command Binary64 := do
  let stats ← handle name
  let w ← read
  let memo := (w.memos.get? stats.serial).getD []
  let (memo, estimated) :=
    stats.selectivity (stats.reread w.catalog) memo column op constant
  update fun w => { w with memos := w.memos.put stats.serial memo }
  estimated

/-- Forgets the histograms of statistics. -/
def clearMemo (name : String) : Command Unit := do
  let stats ← handle name
  update fun w => { w with memos := w.memos.erase stats.serial }

-- ---------------------------------------------------------------------------
-- Registries
-- ---------------------------------------------------------------------------

/-- One of the registries. -/
def registry (w : Workspace) : RegistryChoice → Registry
  | .own => w.own
  | .standard => w.standard

/-- Replaces one of the registries. -/
def setRegistry (choice : RegistryChoice) (registry : Registry) : Command Unit :=
  update fun w =>
    match choice with
    | .own => { w with own := registry }
    | .standard => { w with standard := registry }

/-- Takes the statistics of all tables for a registry, which stays as it is on a failure. -/
def takeAll (choice : RegistryChoice) (options : StatsOptions) (verbose : Bool) :
    Command Unit := do
  let w ← read
  let (registry, computed) :=
    (w.registry choice).recompute w.catalog options verbose w.nextSerial
  setRegistry choice registry
  update fun w => { w with nextSerial := w.nextSerial + w.catalog.tables.length }
  computed

/-- Puts named statistics into a registry. -/
def register (choice : RegistryChoice) (table handleName : String) : Command Unit := do
  let stats ← handle handleName
  setRegistry choice ((← read).registry choice |>.set table stats)

/-- The statistics of some names, by tables. -/
def resolveAll (entries : List (String × String)) : Command Snapshot :=
  entries.foldlM (fun acc (table, name) => return acc.put table (← handle name)) []

/-- Puts named statistics in place of all that a registry holds. -/
def replaceAll (choice : RegistryChoice) (entries : List (String × String)) : Command Unit := do
  setRegistry choice ⟨← resolveAll entries⟩

-- ---------------------------------------------------------------------------
-- Snapshots
-- ---------------------------------------------------------------------------

/-- The snapshot of a name. -/
def snapshot (name : String) : Command Snapshot := named snapshots name

/-- Sets the snapshot of a name. -/
def setSnapshot (name : String) (taken : Snapshot) : Command Unit :=
  update fun w => { w with snapshots := w.snapshots.put name taken }

/-- Takes a snapshot of a registry and gives it a name. -/
def takeSnapshot (choice : RegistryChoice) (name : String) : Command Snapshot := do
  let taken := ((← read).registry choice).snapshot
  setSnapshot name taken
  return taken

/-- Drops the statistics of a table from a snapshot. -/
def dropFrom (name table : String) : Command Snapshot := do
  let taken ← snapshot name
  if taken.has table then
    setSnapshot name (taken.erase table)
    return taken.erase table
  else (.error (.unknownName table) : Outcome Snapshot)

/-- The snapshot of a name, or a new one. -/
def snapshotOr : Option String → Command Snapshot
  | some name => snapshot name
  | none => return (← read).own.snapshot

-- ---------------------------------------------------------------------------
-- Planners
-- ---------------------------------------------------------------------------

/-- The planner of a name. -/
def planner (name : String) : Command Planner := named planners name

/-- Sets the planner of a name. -/
def setPlanner (name : String) (planner : Planner) : Command Unit :=
  update fun w => { w with planners := w.planners.put name planner }

/-- What a planner would reckon with. -/
def setting (name : String) (snapshotName : Option String) (selectivities : Selectivities) :
    Command Setting := do
  let planner ← planner name
  let stats ← snapshotOr snapshotName
  return planner.setting (← read).catalog stats (some selectivities)

/-- Gives a name to a new planner. -/
def createPlanner (name : String) (predicates : List Predicate) (fraction : Quantity)
    (verbose : Bool) : Command Planner := do
  let planner ← (Planner.create predicates fraction verbose : Traced Planner)
  setPlanner name planner
  return planner

/-- Lets a planner do something that may change it. -/
def withPlanner {α : Type} (name : String) (f : Planner → Planner × Traced α) : Command α := do
  let (planner, result) := f (← planner name)
  setPlanner name planner
  result

/-- Lets a planner order its joins under the statistics of a snapshot. -/
def orderJoins (name : String) (stats : Snapshot) (selectivities : Option Selectivities)
    (explained : Bool) : Command (List Predicate) := do
  let catalog := (← read).catalog
  withPlanner name fun planner => planner.order id catalog stats selectivities explained

/-- Drops the plans of a planner's last run. -/
def clearPlans (name : String) : Command Unit :=
  withPlanner name fun planner =>
    let (planner, outcome) := planner.clearPlans
    (planner, .ofOutcome outcome)

end Workspace

end JoinPlanner
