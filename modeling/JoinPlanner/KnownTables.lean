import JoinPlanner.InputCheck
import JoinPlanner.Statistics.Registry

/-!
# JoinPlanner — known tables

A table of a query is known if its alias stands for a table of the catalog, if there
are statistics of that table, and if it has a filter selectivity in case any are
given.

* `isKnown`    — whether one alias is known.
* `checkKnown` — the check for all tables of some predicates, which lists the
  unknown aliases in increasing order.
-/

namespace JoinPlanner

/-- The fraction of tuples that passes the filters of a table, by alias. -/
abbrev Selectivities := Association String Quantity

/-- The statistics of the table that an alias stands for. -/
def Catalog.statsOf? (catalog : Catalog) (stats : Snapshot) (aliasName : Option String) :
    Option TableStats := do
  let id ← catalog.resolve aliasName
  let table ← catalog.tables[id]?
  stats.get? table.name

/-- Whether an alias has a table, statistics, and a selectivity if there are any. -/
def isKnown (catalog : Catalog) (stats : Snapshot) (selectivities : Option Selectivities)
    (aliasName : Option String) : Bool :=
  (catalog.statsOf? stats aliasName).isSome
    && match selectivities with
      | none => true
      | some given => (aliasName.bind given.get?).isSome

/-- Aliases in increasing order. An absent one has no place among others. -/
def sortedAliases (aliases : List (Option String)) : Outcome (List (Option String)) :=
  if aliases.contains none && 1 < aliases.length then .error (.incomparable "<" "NoneType" "str")
  else .ok (Text.sortedOn (fun a => a.getD "") aliases)

/-- Whether all tables of the predicates are known. -/
def checkKnown (catalog : Catalog) (stats : Snapshot)
    (selectivities : Option Selectivities) (predicates : List Predicate) : Outcome InputCheck := do
  let aliases ← sortedAliases (Predicate.tablesIn predicates)
  let unknown := aliases.filter fun aliasName => !isKnown catalog stats selectivities aliasName
  if unknown.isEmpty then return .success
  else return ⟨false, unknownTableReason, unknown.map .table⟩

end JoinPlanner
