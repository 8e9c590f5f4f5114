import JoinPlanner.Proofs.Catalog.Names
import JoinPlanner.Proofs.Statistics.Summaries
import JoinPlanner.Statistics.Registry

/-!
# JoinPlanner — the statistics of all tables

The statistics of all tables are taken in the order of the catalog, and only once they are
complete they replace those of a registry. Whichever table it is that fails, and for whatever
reason, the registry stays as it was, and the failure is that of the first such table.

* `outcome_takeEach`    — the statistics are those of the tables one by one.
* `FirstFailure`        — the first table that fails, and how its failure is told.
* `CompleteEntries`     — one entry for each table, and no other.
* `recompute_cases`     — a registry is kept, or it is complete.
-/

namespace JoinPlanner

open Outcome

variable {catalog : Catalog} {options : StatsOptions} {verbose : Bool} {serial : Nat}

-- ---------------------------------------------------------------------------
-- Table by table
-- ---------------------------------------------------------------------------

/-- The statistics of a table with its name. -/
def entryOf (catalog : Catalog) (options : StatsOptions) (serial : Nat) (id : Nat) :
    Outcome (String × TableStats) := do
  let table ← catalog.table id
  return (table.name, ← TableStats.take catalog options (serial + id) id)

theorem outcome_takeEach (taken : Snapshot) (ids : List Nat) :
    (takeEach catalog options verbose serial taken ids).outcome =
      ids.mapM (entryOf catalog options serial) >>= fun entries =>
        .ok (entries.foldl (fun acc e => acc.put e.1 e.2) taken) := by
  induction ids generalizing taken with
  | nil => rfl
  | cons id rest ih =>
    simp only [takeEach, Traced.outcome_bind, Traced.outcome_liftM, Traced.outcome_progress,
      List.mapM_cons, entryOf, ih]
    cases catalog.table id with
    | error e => rfl
    | ok table =>
      cases TableStats.take catalog options (serial + id) id with
      | error e => rfl
      | ok stats =>
        show (rest.mapM (entryOf catalog options serial) >>= _) = _
        cases rest.mapM (entryOf catalog options serial) <;> rfl

-- ---------------------------------------------------------------------------
-- All tables
-- ---------------------------------------------------------------------------

/-- The first table whose statistics cannot be taken. -/
structure FirstFailure (catalog : Catalog) (options : StatsOptions) (id : Nat) (e : PlannerError) :
    Prop where
  fails : ∃ t, catalog.tables[id]? = some t ∧ TableFails catalog options id t e
  first : ∀ j, j < id → ∀ t, catalog.tables[j]? = some t →
    ∀ e, ¬ TableFails catalog options j t e
  /-- If it is the reading of its rows that fails, the error names it and has the storage's error
  as its cause. -/
  told : ∀ t pages cause, catalog.tables[id]? = some t → catalog.pagesFilled id = .ok pages →
    t.schema.Uniform (t.rowsRead (options.faults.get? id)) →
      ScanFails id t (options.faults.get? id) cause →
      e = .scanFailed id cause ∧ e.failure.kind = .statistics ∧
        e.failure.table = some (.number (.whole id)) ∧ e.failure.cause = some .inputOutput

/-- There is one entry for each table, and no other. -/
structure CompleteEntries (catalog : Catalog) (entries : Snapshot) : Prop where
  names : entries.map Prod.fst = catalog.names
  nodup : catalog.names.Nodup
  stats : ∀ (id : Nat) t, catalog.tables[id]? = some t →
    ∃ stats, entries.get? t.name = some stats ∧ Summarizes catalog id t stats

theorem entryOf_cases (hReachable : catalog.Reachable) (options : StatsOptions) (serial : Nat)
    {id : Nat} {t : Table} (hTable : catalog.tables[id]? = some t) :
    (∃ stats, entryOf catalog options serial id = .ok (t.name, stats) ∧
      Summarizes catalog id t stats ∧ ∀ e, ¬ TableFails catalog options id t e) ∨
    ∃ e, entryOf catalog options serial id = .error e ∧ TableFails catalog options id t e := by
  rw [entryOf, table_of_getElem? hTable]
  rcases take_cases options (serial + id) hTable
    (hReachable.fits t (List.mem_of_getElem? hTable)) with
    ⟨stats, hTake, hSummarizes, hNone⟩ | ⟨e, hTake, hFails⟩
  · exact Or.inl ⟨stats, bind_eq_ok.mpr ⟨t, rfl, bind_eq_ok.mpr ⟨stats, hTake, rfl⟩⟩, hSummarizes,
      hNone⟩
  · exact Or.inr ⟨e, bind_eq_error.mpr (Or.inr ⟨t, rfl, bind_eq_error.mpr (Or.inl hTake)⟩), hFails⟩

/-- The numbers before one of the first numbers are those below it. -/
theorem range_eq_append_cons {n id : Nat} {before after : List Nat}
    (h : List.range n = before ++ id :: after) : id < n ∧ ∀ j, j < id → j ∈ before := by
  have hAt : (List.range n)[before.length]? = some id := by
    rw [h, List.getElem?_append_right (Nat.le_refl _), Nat.sub_self]
    rfl
  obtain ⟨hLt, hId⟩ := List.getElem?_eq_some_iff.mp hAt
  rw [List.getElem_range] at hId
  rw [List.length_range] at hLt
  refine ⟨hId ▸ hLt, fun j hj => ?_⟩
  have hBefore : (List.range n)[j]? = some j := List.getElem?_range (by omega)
  rw [h, List.getElem?_append_left (by omega)] at hBefore
  exact List.mem_of_getElem? hBefore

theorem firstFailure_of_mapM (hReachable : catalog.Reachable) {e : PlannerError}
    (h : catalog.tableNumbers.mapM (entryOf catalog options serial) = .error e) :
    ∃ id, FirstFailure catalog options id e := by
  obtain ⟨before, id, after, hSplit, hError, hBefore⟩ := exists_of_mapM_error h
  obtain ⟨hLt, hFirst⟩ := range_eq_append_cons hSplit
  have hTable : catalog.tables[id]? = some catalog.tables[id] := List.getElem?_eq_getElem hLt
  rcases entryOf_cases hReachable options serial hTable with ⟨stats, hOk, -⟩ | ⟨e', hError', hFails⟩
  · cases hOk.symm.trans hError
  cases hError.symm.trans hError'
  refine ⟨id, ⟨_, hTable, hFails⟩, fun j hj t ht e' hFails' => ?_,
    fun t pages cause ht hPages hUniform hScan => ?_⟩
  · obtain ⟨entry, hEntry⟩ := hBefore j (hFirst j hj)
    rcases entryOf_cases hReachable options serial ht with ⟨_, -, -, hNone⟩ | ⟨_, hBad, -⟩
    · exact hNone e' hFails'
    · cases hEntry.symm.trans hBad
  · cases hTable.symm.trans ht
    cases hFails.unique (.scan hPages hUniform hScan)
    refine ⟨rfl, rfl, rfl, ?_⟩
    show some cause.kind = _
    rw [hScan.kind_eq]

/-- The entry of a table stands in its place. -/
theorem exists_entry_of_mapM (hReachable : catalog.Reachable) {entries : Snapshot}
    (h : catalog.tableNumbers.mapM (entryOf catalog options serial) = .ok entries) {id : Nat}
    {t : Table} (hTable : catalog.tables[id]? = some t) : ∃ stats,
      entries[id]? = some (t.name, stats) ∧ Summarizes catalog id t stats ∧
        ∀ e, ¬ TableFails catalog options id t e := by
  have hAll := forall₂_of_mapM h
  have hLt : id < catalog.tableNumbers.length := by
    rw [Catalog.tableNumbers, List.length_range]
    exact (List.getElem?_eq_some_iff.mp hTable).1
  have hLt' : id < entries.length := hAll.length_eq ▸ hLt
  have hOk := hAll.get hLt hLt'
  simp only [List.get_eq_getElem, Catalog.tableNumbers, List.getElem_range] at hOk
  rcases entryOf_cases hReachable options serial hTable with ⟨stats, hOk', hRest⟩ | ⟨e, hError, -⟩
  · refine ⟨stats, ?_, hRest⟩
    rw [List.getElem?_eq_getElem hLt', Except.ok.inj (hOk.symm.trans hOk')]
  · cases hOk.symm.trans hError

/-- The entries have the names of the tables. -/
theorem names_of_mapM (hReachable : catalog.Reachable) {entries : Snapshot}
    (h : catalog.tableNumbers.mapM (entryOf catalog options serial) = .ok entries) :
    entries.map Prod.fst = catalog.names := by
  have hLength : entries.length = catalog.tables.length := by
    rw [← (forall₂_of_mapM h).length_eq, Catalog.tableNumbers, List.length_range]
  refine List.ext_getElem? fun i => ?_
  rw [List.getElem?_map, Catalog.names, List.getElem?_map]
  cases hTable : catalog.tables[i]? with
  | none =>
    rw [List.getElem?_eq_none_iff] at hTable
    rw [List.getElem?_eq_none (hLength ▸ hTable)]
    rfl
  | some t =>
    obtain ⟨stats, hEntry, -⟩ := exists_entry_of_mapM hReachable h hTable
    rw [hEntry]
    rfl

/-- The entries are those of the tables in order, so none of them takes the place of another. -/
theorem completeEntries_of_mapM (hReachable : catalog.Reachable) {entries : Snapshot}
    (h : catalog.tableNumbers.mapM (entryOf catalog options serial) = .ok entries) :
    CompleteEntries catalog (entries.foldl (fun acc e => acc.put e.1 e.2) []) ∧
      ∀ id t, catalog.tables[id]? = some t → ∀ e, ¬ TableFails catalog options id t e := by
  have hKeys := names_of_mapM hReachable h
  have hNodup : (entries.map Prod.fst).Nodup := hKeys ▸ hReachable.nodup_names
  rw [Association.foldl_put_of_nodup (by simpa using hNodup), List.nil_append]
  refine ⟨⟨hKeys, hReachable.nodup_names, fun id t hTable => ?_⟩, fun id t hTable => ?_⟩
  · obtain ⟨stats, hGet, hSummarizes, -⟩ := exists_entry_of_mapM hReachable h hTable
    exact ⟨stats, Association.get?_of_mem hNodup (List.mem_of_getElem? hGet), hSummarizes⟩
  · obtain ⟨_, -, -, hNone⟩ := exists_entry_of_mapM hReachable h hTable
    exact hNone

-- ---------------------------------------------------------------------------
-- Registries
-- ---------------------------------------------------------------------------

theorem recompute_of_error (registry : Registry) {e : PlannerError}
    (h : (takeAll catalog options verbose serial).outcome = .error e) :
    (registry.recompute catalog options verbose serial).1 = registry ∧
      (registry.recompute catalog options verbose serial).2.outcome = .error e := by
  have hComputed : ((Traced.progress verbose "Computing table stats." : Traced Unit) >>= fun _ =>
      takeAll catalog options verbose serial).outcome = .error e := by
    rw [Traced.outcome_bind, h]
    rfl
  rw [Registry.recompute]
  simp only [hComputed, and_self]

theorem recompute_of_ok (registry : Registry) {entries : Snapshot}
    (h : (takeAll catalog options verbose serial).outcome = .ok entries) :
    (registry.recompute catalog options verbose serial).1 = ⟨entries⟩ ∧
      (registry.recompute catalog options verbose serial).2.outcome = .ok () := by
  have hComputed : ((Traced.progress verbose "Computing table stats." : Traced Unit) >>= fun _ =>
      takeAll catalog options verbose serial).outcome = .ok entries := by
    rw [Traced.outcome_bind, h]
    rfl
  rw [Registry.recompute]
  simp only [hComputed, and_self]

/--
A registry is kept, if the statistics of some table cannot be taken. Otherwise it has exactly
one entry for each table, whatever it had before.
-/
theorem recompute_cases (hReachable : catalog.Reachable) (registry : Registry)
    (options : StatsOptions) (verbose : Bool) (serial : Nat) :
    (∃ id e, FirstFailure catalog options id e ∧
      (registry.recompute catalog options verbose serial).1 = registry ∧
      (registry.recompute catalog options verbose serial).2.outcome = .error e) ∨
    ((∀ id t, catalog.tables[id]? = some t → ∀ e, ¬ TableFails catalog options id t e) ∧
      CompleteEntries catalog (registry.recompute catalog options verbose serial).1.entries ∧
      (registry.recompute catalog options verbose serial).2.outcome = .ok ()) := by
  have hTaken : (takeAll catalog options verbose serial).outcome =
      catalog.tableNumbers.mapM (entryOf catalog options serial) >>= fun entries =>
        .ok (entries.foldl (fun (acc : Snapshot) e => acc.put e.1 e.2) []) :=
    outcome_takeEach [] _
  cases hEntries : catalog.tableNumbers.mapM (entryOf catalog options serial) with
  | error e =>
    rw [hEntries] at hTaken
    obtain ⟨id, hFirst⟩ := firstFailure_of_mapM hReachable hEntries
    exact Or.inl ⟨id, e, hFirst, recompute_of_error registry hTaken⟩
  | ok entries =>
    rw [hEntries] at hTaken
    obtain ⟨hComplete, hNone⟩ := completeEntries_of_mapM hReachable hEntries
    obtain ⟨hRegistry, hOk⟩ := recompute_of_ok registry hTaken
    rw [hRegistry]
    exact Or.inr ⟨hNone, hComplete, hOk⟩

/-- A table with two columns and a table with one. -/
def twoTables : Catalog :=
  (((Catalog.empty 4096).register "A" ⟨[⟨"id", .integer⟩, ⟨"name", .string⟩]⟩ "id"
      [[.int 3, .text "x"], [.int (-1), .text "y"]]).1.register "B" ⟨[⟨"id", .integer⟩]⟩ ""
      [[.int 7]]).1

/-- The statement at these tables, with a second one that breaks down at its end, and without. -/
theorem recompute_cases_twoTables :
    twoTables.Reachable ∧
      (∃ id e, FirstFailure twoTables { faults := [(1, .atEnd)] } id e ∧
        (Registry.empty.recompute twoTables { faults := [(1, .atEnd)] } false 0).1 =
          Registry.empty ∧
        (Registry.empty.recompute twoTables { faults := [(1, .atEnd)] } false 0).2.outcome =
          .error e) ∧
      CompleteEntries twoTables (Registry.empty.recompute twoTables {} false 0).1.entries := by
  have hReachable : twoTables.Reachable :=
    .register (.register (.empty 4096) _ _ _ _) _ _ _ _
  refine ⟨hReachable, ?_, ?_⟩
  · rcases recompute_cases hReachable Registry.empty { faults := [(1, .atEnd)] } false 0 with
      hKept | ⟨-, -, hOk⟩
    · exact hKept
    · have hFails : (Registry.empty.recompute twoTables { faults := [(1, .atEnd)] } false
          0).2.outcome.toOption.isNone = true := by decide +kernel
      rw [hOk] at hFails
      cases hFails
  · rcases recompute_cases hReachable Registry.empty {} false 0 with
      ⟨_, _, -, -, hError⟩ | ⟨-, hComplete, -⟩
    · have hOk : (Registry.empty.recompute twoTables {} false 0).2.outcome = .ok () :=
        eq_ok_of_toOption (by decide +kernel)
      cases hOk.symm.trans hError
    · exact hComplete

/-- A text below an integer cannot be compared with it. -/
example : (Registry.empty.recompute ((Catalog.empty 4096).register "A" ⟨[⟨"id", .integer⟩]⟩ ""
    [[.int 7], [.text "x"]]).1 {} false 0).2.outcome.told? =
      some (.invalidType, "'<' not supported between instances of 'str' and 'int'") := by
  decide +kernel

end JoinPlanner
