import JoinPlanner.Export
import JoinPlanner.Histogram.Printer
import JoinPlanner.Json.Printer
import JoinPlanner.Log
import JoinPlanner.Progression
import JoinPlanner.Raise
import JoinPlanner.Workspace
import JoinPlanner.Proofs.Catalog.FailedChanges
import JoinPlanner.Proofs.Catalog.HeapPages
import JoinPlanner.Proofs.Catalog.History
import JoinPlanner.Proofs.ComponentLists
import JoinPlanner.Proofs.Components
import JoinPlanner.Proofs.Histogram.ErrorBounds
import JoinPlanner.Proofs.Histogram.OrderedEstimates
import JoinPlanner.Proofs.Histogram.Tallies
import JoinPlanner.Proofs.Histogram.Texts
import JoinPlanner.Proofs.Histogram.UnitBuckets
import JoinPlanner.Proofs.LeftDeep
import JoinPlanner.Proofs.Linked
import JoinPlanner.Proofs.Lookup
import JoinPlanner.Proofs.NotNegative
import JoinPlanner.Proofs.Outcome
import JoinPlanner.Proofs.Planner.CheapestOrder
import JoinPlanner.Proofs.Planner.ClosedCycles
import JoinPlanner.Proofs.Planner.FirstJoins
import JoinPlanner.Proofs.Planner.InputOrder
import JoinPlanner.Proofs.Planner.InputOrientation
import JoinPlanner.Proofs.Planner.LinkedSets
import JoinPlanner.Proofs.Planner.Outcomes
import JoinPlanner.Proofs.Planner.QueryMeaning
import JoinPlanner.Proofs.Planner.Sessions
import JoinPlanner.Proofs.Planner.SubqueryNames
import JoinPlanner.Proofs.Planner.TreeCosts
import JoinPlanner.Proofs.Planner.VisitedSets
import JoinPlanner.Proofs.Statistics.ColumnHistograms
import JoinPlanner.Proofs.Statistics.Recomputing
import JoinPlanner.Proofs.Statistics.Remembering
import JoinPlanner.Proofs.StepTrees
