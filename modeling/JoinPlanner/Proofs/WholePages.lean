import JoinPlanner.Planner.Basic
import JoinPlanner.Proofs.Lookup
import JoinPlanner.Proofs.Search.WholeCosts

/-!
# JoinPlanner — statistics with integer costs

If reading a page costs an integer, scans cost integers. If the cost is a natural number,
so are the costs of scans: no table fills a negative number of pages.

* `WholePages`, `NaturalPages`, `NaturalSelectivities` — what is asked of the inputs.
* `naturalPages_of_takeAll` — statistics that are taken of a catalog are such.
* `wholeScans_of_stats`, `naturalScans_of_stats` — what the scans of a search cost then.
-/

namespace JoinPlanner

open Outcome

-- ---------------------------------------------------------------------------
-- Inputs
-- ---------------------------------------------------------------------------

/-- The cost of a page is an integer for all tables. -/
def WholePages (stats : Snapshot) : Prop := ∀ e ∈ stats, ∃ n : Int, e.2.ioCost = .whole n

/-- The cost of a page is a natural number for all tables, and so is the number of pages. -/
def NaturalPages (stats : Snapshot) : Prop :=
  ∀ e ∈ stats, 0 ≤ e.2.pages ∧ ∃ n : Nat, e.2.ioCost = .whole n

/-- No selectivity that is given is negative. -/
def NaturalSelectivities (selectivities : Option Selectivities) : Prop :=
  ∀ given, selectivities = some given → ∀ e ∈ given, Number.le (.whole 0) e.2 = true

theorem NaturalPages.whole {stats : Snapshot} (h : NaturalPages stats) : WholePages stats := by
  intro e he
  obtain ⟨-, n, hn⟩ := h e he
  exact ⟨n, hn⟩

-- ---------------------------------------------------------------------------
-- Taking statistics
-- ---------------------------------------------------------------------------

theorem slotsPerPage_nonneg {schema : Schema} {pageSize : Int} (h : 0 ≤ pageSize) :
    0 ≤ slotsPerPage schema pageSize :=
  Int.fdiv_nonneg (by omega) (by omega)

theorem Catalog.pagesFilled_nonneg {catalog : Catalog} {id pages : Int}
    (hSize : 0 ≤ catalog.pageSize) (h : catalog.pagesFilled id = .ok pages) : 0 ≤ pages := by
  simp only [pagesFilled, bind_eq_ok] at h
  obtain ⟨t, -, h⟩ := h
  split at h
  · cases h
  · simp only [bind_eq_ok, liftM_number, ofNumber_eq_ok, pagesFor] at h
    obtain ⟨q, hQuotient, hCeil⟩ := h
    exact Binary64.ceil_nonneg (Binary64.notNegative_quotient (Int.natCast_nonneg _)
      (slotsPerPage_nonneg hSize) hQuotient) hCeil

theorem TableStats.take_eq_ok {catalog : Catalog} {options : StatsOptions} {serial : Nat} {id : Int}
    {stats : TableStats} (h : take catalog options serial id = .ok stats) :
    catalog.pagesFilled id = .ok stats.pages ∧ stats.ioCost = options.ioCost := by
  simp only [take, bind_eq_ok, pure_eq_ok] at h
  obtain ⟨t, -, pages, hPages, rows, -, rfl⟩ := h
  exact ⟨hPages, rfl⟩

/-- What holds of the statistics of every table holds of all statistics that are taken. -/
theorem forall_of_takeEach {catalog : Catalog} {options : StatsOptions} {verbose : Bool}
    {serial : Nat} {P : TableStats → Prop}
    (hTake : ∀ serial id stats, TableStats.take catalog options serial id = .ok stats → P stats)
    {ids : List Nat} {taken all : Snapshot} (hTaken : ∀ e ∈ taken, P e.2)
    (h : (takeEach catalog options verbose serial taken ids).outcome = .ok all) :
    ∀ e ∈ all, P e.2 := by
  induction ids generalizing taken with
  | nil =>
    cases h
    exact hTaken
  | cons id rest ih =>
    simp only [takeEach, Traced.outcome_bind, Traced.outcome_liftM, Traced.outcome_progress,
      bind_eq_ok] at h
    obtain ⟨table, -, stats, hStats, _, -, h⟩ := h
    refine ih ?_ h
    intro e he
    rcases Association.mem_put he with he | rfl
    · exact hTaken e he
    · exact hTake _ _ _ hStats

/-- The statistics of all tables of a catalog are as they are asked for. -/
theorem naturalPages_of_takeAll {catalog : Catalog} {options : StatsOptions} {verbose : Bool}
    {serial n : Nat} {stats : Snapshot} (hSize : 0 ≤ catalog.pageSize)
    (hCost : options.ioCost = .whole n)
    (h : (takeAll catalog options verbose serial).outcome = .ok stats) : NaturalPages stats := by
  refine forall_of_takeEach (P := fun stats => 0 ≤ stats.pages ∧ ∃ n : Nat, stats.ioCost = .whole n)
    (fun serial id stats hTake => ?_) (fun e he => by cases he) h
  obtain ⟨hPages, hIo⟩ := TableStats.take_eq_ok hTake
  exact ⟨Catalog.pagesFilled_nonneg hSize hPages, n, hIo.trans hCost⟩

-- ---------------------------------------------------------------------------
-- Scans
-- ---------------------------------------------------------------------------

/-- What a scan reads: the statistics of some table and the selectivity of some filter. -/
theorem Setting.scanInput_eq_ok {s : Setting} {side : Operand} {input : JoinInput}
    (h : s.scanInput side = .ok input) :
    ∃ e ∈ s.stats, ∃ f ∈ s.selectivities, e.2.scanCost = .ok input.cost ∧
      e.2.cardinality f.2 = .ok input.cardinality := by
  simp only [scanInput, bind_eq_ok, pure_eq_ok] at h
  obtain ⟨⟨cost, card⟩, hScan, key, -, rfl⟩ := h
  rw [scanOf] at hScan
  split at hScan
  · cases hScan
  · rename_i selectivity hSelectivity
    simp only [bind_eq_ok, pure_eq_ok, liftM_number, ofNumber_eq_ok, Prod.mk.injEq] at hScan
    obtain ⟨found, hFound, cost', hCost, card', hCard, rfl, rfl⟩ := hScan
    obtain ⟨a, -, hGet⟩ := Option.bind_eq_some_iff.mp hSelectivity
    obtain ⟨a', hMem, -⟩ := Association.exists_mem_of_get? hGet
    rw [statsOf] at hFound
    split at hFound
    · cases hFound
    · obtain ⟨table, -, hFound⟩ := bind_eq_ok.mp hFound
      split at hFound
      · rename_i stats hStats
        rw [pure_eq_ok] at hFound
        subst hFound
        obtain ⟨name, hEntry, -⟩ := Association.exists_mem_of_get? hStats
        exact ⟨(name, stats), hEntry, (a', selectivity), hMem, hCost, hCard⟩
      · cases hFound

theorem scanCost_of_whole {stats : TableStats} {n : Int} (h : stats.ioCost = .whole n) {cost : Cost}
    (hCost : stats.scanCost = .ok cost) : cost = .whole (stats.pages * n) := by
  rw [TableStats.scanCost, h] at hCost
  cases hCost
  rfl

namespace Planner

variable {planner : Planner} {catalog : Catalog} {stats : Snapshot}
  {selectivities : Option Selectivities}

theorem notNegative_of_mem_setting (h : NaturalSelectivities selectivities)
    {e : String × Quantity}
    (he : e ∈ (planner.setting catalog stats selectivities).selectivities) :
    Quantity.NotNegative e.2 := by
  cases selectivities with
  | some given => exact Quantity.notNegative_of_le (h given rfl e he)
  | none =>
    obtain ⟨table, -, hTable⟩ := List.mem_filterMap.mp he
    obtain ⟨a, -, rfl⟩ := Option.map_eq_some_iff.mp hTable
    exact Binary64.NotNegative.positive _

theorem wholeScans_of_stats (hPages : WholePages stats)
    (hSelectivities : NaturalSelectivities selectivities) :
    (planner.setting catalog stats selectivities).WholeScans := by
  refine ⟨fun side input hInput => ?_, fun side input hInput => ?_⟩
  · obtain ⟨e, he, f, -, hCost, -⟩ := Setting.scanInput_eq_ok hInput
    obtain ⟨n, hn⟩ := hPages e he
    exact ⟨_, scanCost_of_whole hn hCost⟩
  · obtain ⟨e, -, f, hf, -, hCard⟩ := Setting.scanInput_eq_ok hInput
    exact TableStats.cardinality_nonneg (notNegative_of_mem_setting hSelectivities hf) hCard

theorem naturalScans_of_stats (hPages : NaturalPages stats) :
    (planner.setting catalog stats selectivities).NaturalScans := by
  intro side input hInput n hn
  obtain ⟨e, he, f, -, hCost, -⟩ := Setting.scanInput_eq_ok hInput
  obtain ⟨hNonneg, m, hm⟩ := hPages e he
  rw [scanCost_of_whole hm hCost] at hn
  cases hn
  exact Int.mul_nonneg hNonneg (Int.natCast_nonneg m)

end Planner

end JoinPlanner
