import JoinPlanner.Statistics.Table

/-!
# JoinPlanner — the statistics registry

A registry maps table names to statistics. A snapshot of it does not reflect later
changes.

* `takeAll`             — the statistics of all tables, or the first failure.
* `Registry.recompute`  — replaces all statistics, or none if one of them fails.
-/

namespace JoinPlanner

/-- Statistics by the names of their tables. -/
abbrev Snapshot := Association String TableStats

/-- Takes the statistics of the given tables in turn. -/
def takeEach (catalog : Catalog) (options : StatsOptions) (verbose : Bool) (serial : Nat)
    (taken : Snapshot) : List Nat → Traced Snapshot
  | [] => return taken
  | id :: rest => do
    let table ← (catalog.table id : Outcome Table)
    let stats ← (TableStats.take catalog options (serial + id) id : Outcome TableStats)
    Traced.progress verbose ("Computed " ++ stats.describe ++ " for " ++ table.name)
    takeEach catalog options verbose serial (taken.put table.name stats) rest

/-- Takes the statistics of all tables; serial numbers start at the given one. -/
def takeAll (catalog : Catalog) (options : StatsOptions) (verbose : Bool) (serial : Nat) :
    Traced Snapshot :=
  takeEach catalog options verbose serial [] catalog.tableNumbers

/-- The current statistics. -/
structure Registry where
  entries : Snapshot
  deriving Repr

namespace Registry

def empty : Registry := ⟨[]⟩

def get? (registry : Registry) (name : String) : Option TableStats := registry.entries.get? name

def set (registry : Registry) (name : String) (stats : TableStats) : Registry :=
  ⟨registry.entries.put name stats⟩

/-- A copy of all statistics. -/
def snapshot (registry : Registry) : Snapshot := registry.entries

/-- Replaces the statistics by those of all tables of a catalog, or keeps them on failure. -/
def recompute (registry : Registry) (catalog : Catalog) (options : StatsOptions)
    (verbose : Bool) (serial : Nat) : Registry × Traced Unit :=
  let computed : Traced Snapshot := do
    Traced.progress verbose "Computing table stats."
    takeAll catalog options verbose serial
  match computed.outcome with
  | .error e => (registry, ⟨computed.events, .error e⟩)
  | .ok entries =>
    (⟨entries⟩, ⟨computed.events ++ (Traced.progress verbose "Done.").events, .ok ()⟩)

/-- A short description. -/
def describe (registry : Registry) : String :=
  let names := Text.sorted (registry.entries.map Prod.fst)
  "StatisticsRegistry(" ++ (Value.list (names.map .text)).inner ++ ")"

end Registry

end JoinPlanner
