import JoinPlanner.Catalog.Storage
import JoinPlanner.Proofs.Catalog.Changes
import JoinPlanner.Proofs.LeftDeep
import Mathlib.Data.List.Induction

/-!
# JoinPlanner — the history of a catalog

What a catalog holds can be told from the changes that it has gone through, also if some of
them have failed: the numbers of its tables from the order in which their names were first
registered, and each table from the latest registration of its name and what was accepted
since then.

* `registeredNames`   — the names in the order of their first registrations.
* `LatestRegistration`, `acceptedRows` — how a table was registered last, and its rows.
* `names_afterAll`, `exists_latestRegistration` — a run keeps the names and the tables true.
* `Recounts`, `recounts_afterAll` — the statement about all histories.
-/

namespace JoinPlanner

open Catalog

-- ---------------------------------------------------------------------------
-- What a history tells
-- ---------------------------------------------------------------------------

/-- The catalog after some changes. What a failed one leaves behind stays. -/
def Catalog.afterAll (catalog : Catalog) (changes : List Change) : Catalog :=
  changes.foldl (fun catalog change => (change.apply catalog).1) catalog

/-- The names that have been registered, in the order of their first registrations. -/
def registeredNames (changes : List Change) : List String :=
  (changes.filterMap Change.registers?).eraseDups

/-- The rows that some changes have added to a table of a name and a schema. -/
def acceptedRows (name : String) (schema : Schema) (changes : List Change) : List Row :=
  changes.flatMap (Change.rowsFor name schema)

/-- The latest registration of a name, and the changes since then. -/
structure LatestRegistration (changes : List Change) (name : String) (schema : Schema)
    (primaryKey : String) (rows : List Row) (since : List Change) : Prop where
  split : ∃ before, changes = before ++ .register name schema primaryKey rows :: since
  allowed : schema.AllowsKey primaryKey
  latest : ∀ change ∈ since, change.registers? ≠ some name

/-- A catalog holds what its history tells. -/
structure Recounts (changes : List Change) (catalog : Catalog) : Prop where
  /-- The numbers of the tables are the first ones, as many as names have been registered. -/
  numbers : catalog.tableNumbers = List.range (registeredNames changes).length
  /-- A name has one number, its place in the order of first registrations. -/
  number : ∀ id name, catalog.number? name = some id ↔ (registeredNames changes)[id]? = some name
  distinct : (registeredNames changes).Nodup
  /-- The table of a number has the name, the schema and the key of the latest registration,
  and a scan gives the rows that were accepted then and since, in order. -/
  table : ∀ (id : Nat) name, (registeredNames changes)[id]? = some name →
    ∃ t rows since, catalog.table id = .ok t ∧ t.name = name ∧
      LatestRegistration changes name t.schema t.primaryKey rows since ∧
      catalog.scan none id = ⟨t.schema.fitting rows ++ acceptedRows name t.schema since, none⟩
  resolves : ∀ aliasName id, catalog.resolve (some aliasName) = some id →
    id ∈ catalog.tableNumbers
  key : ∀ t ∈ catalog.tables, t.primaryKey = "" ∨ t.primaryKey ∈ t.schema.names
  width : ∀ t ∈ catalog.tables, ∀ row ∈ t.rows, row.length = t.schema.columns.length
  /-- Whatever happens next, a name keeps its number. -/
  kept : ∀ (change : Change) id name, catalog.number? name = some id →
    (change.apply catalog).1.number? name = some id
  /-- Registering a name leaves the tables of other names alone. -/
  undisturbed : ∀ name schema primaryKey rows (id : Nat) t, catalog.tables[id]? = some t →
    t.name ≠ name → (catalog.register name schema primaryKey rows).1.tables[id]? = some t

-- ---------------------------------------------------------------------------
-- One more change
-- ---------------------------------------------------------------------------

theorem afterAll_concat (catalog : Catalog) (changes : List Change) (change : Change) :
    catalog.afterAll (changes ++ [change]) = (change.apply (catalog.afterAll changes)).1 := by
  simp [Catalog.afterAll]

theorem registeredNames_concat (changes : List Change) (change : Change) :
    registeredNames (changes ++ [change]) =
      Change.withName (registeredNames changes) change.registers? := by
  unfold registeredNames
  rw [List.filterMap_append, List.eraseDups_append]
  cases hRegisters : change.registers? with
  | none => simp [hRegisters, Change.withName, List.removeAll]
  | some name =>
    by_cases hMem : name ∈ changes.filterMap Change.registers?
    · simp [hRegisters, Change.withName, List.removeAll, List.mem_filterMap.mp hMem]
    · simp [hRegisters, Change.withName, List.removeAll, mt List.mem_filterMap.mpr hMem,
        List.eraseDups_cons]

theorem LatestRegistration.concat {changes since : List Change} {name primaryKey : String}
    {schema : Schema} {rows : List Row} {change : Change}
    (h : LatestRegistration changes name schema primaryKey rows since)
    (hOther : change.registers? ≠ some name) :
    LatestRegistration (changes ++ [change]) name schema primaryKey rows (since ++ [change]) := by
  obtain ⟨before, hSplit⟩ := h.split
  refine ⟨⟨before, by simp [hSplit]⟩, h.allowed, fun other hMem => ?_⟩
  rcases List.mem_append.mp hMem with hBefore | hThis
  · exact h.latest other hBefore
  · exact List.mem_singleton.mp hThis ▸ hOther

theorem acceptedRows_concat (name : String) (schema : Schema) (changes : List Change)
    (change : Change) : acceptedRows name schema (changes ++ [change]) =
      acceptedRows name schema changes ++ change.rowsFor name schema := by
  simp [acceptedRows]

-- ---------------------------------------------------------------------------
-- All changes
-- ---------------------------------------------------------------------------

variable (pageSize : Int)

theorem reachable_afterAll (changes : List Change) :
    ((Catalog.empty pageSize).afterAll changes).Reachable := by
  induction changes using List.reverseRecOn with
  | nil => exact .empty pageSize
  | append_singleton changes change ih =>
    rw [afterAll_concat]
    exact Change.reachable_apply ih change

theorem names_afterAll (changes : List Change) :
    ((Catalog.empty pageSize).afterAll changes).names = registeredNames changes := by
  induction changes using List.reverseRecOn with
  | nil => rfl
  | append_singleton changes change ih =>
    rw [afterAll_concat, Change.names_apply, registeredNames_concat, ih]

/-- Every table is as it was registered last, with the rows that were accepted since. -/
theorem exists_latestRegistration (changes : List Change) {id : Nat} {t : Table}
    (h : ((Catalog.empty pageSize).afterAll changes).tables[id]? = some t) :
    ∃ rows since, LatestRegistration changes t.name t.schema t.primaryKey rows since ∧
      t.rows = t.schema.fitting rows ++ acceptedRows t.name t.schema since := by
  induction changes using List.reverseRecOn generalizing t with
  | nil => simp [Catalog.afterAll, Catalog.empty] at h
  | append_singleton changes change ih =>
    rw [afterAll_concat] at h
    rcases Change.getElem?_apply (reachable_afterAll pageSize changes).nodup_names h with
      ⟨before, hTable, hOther, rfl⟩ | ⟨rows, rfl, hKey, hRows⟩
    · obtain ⟨rows, since, hLatest, hBefore⟩ := ih hTable
      refine ⟨rows, since ++ [change], hLatest.concat hOther, ?_⟩
      rw [acceptedRows_concat, ← List.append_assoc, ← hBefore]
    · exact ⟨rows, [], ⟨⟨changes, rfl⟩, hKey, by simp⟩, by simp [hRows, acceptedRows]⟩

theorem alias_lt_afterAll (changes : List Change) {aliasName : String} {id : Nat}
    (h : ((Catalog.empty pageSize).afterAll changes).aliases.get? aliasName = some id) :
    id < ((Catalog.empty pageSize).afterAll changes).tables.length := by
  induction changes using List.reverseRecOn with
  | nil => cases h
  | append_singleton changes change ih =>
    rw [afterAll_concat] at h ⊢
    rcases Change.get?_apply_aliases h with hBefore | hNow
    · exact Nat.lt_of_lt_of_le (ih hBefore) (Change.length_le_apply _ change)
    · exact hNow

theorem scan_of_getElem? {catalog : Catalog} {id : Nat} {t : Table}
    (h : catalog.tables[id]? = some t) :
    catalog.table id = .ok t ∧ catalog.scan none id = ⟨t.rows, none⟩ := by
  have hTable : catalog.table id = .ok t := by
    simp [Catalog.table, h, show ¬ (id : Int) < 0 by omega]
  refine ⟨hTable, ?_⟩
  unfold Catalog.scan
  simp [hTable]

/-- After any changes, also such that have failed, a catalog holds what they tell. -/
theorem recounts_afterAll (changes : List Change) :
    Recounts changes ((Catalog.empty pageSize).afterAll changes) := by
  have hReachable := reachable_afterAll pageSize changes
  have hNames := names_afterAll pageSize changes
  generalize hCatalog : (Catalog.empty pageSize).afterAll changes = catalog at hReachable hNames
  have hTables : ∀ {id : Nat} {t : Table}, catalog.tables[id]? = some t → ∃ rows since,
      LatestRegistration changes t.name t.schema t.primaryKey rows since ∧
        t.rows = t.schema.fitting rows ++ acceptedRows t.name t.schema since :=
    fun h => exists_latestRegistration pageSize changes (hCatalog ▸ h)
  have hNodup := hReachable.nodup_names
  have hLength : catalog.tables.length = (registeredNames changes).length := by
    rw [← hNames, Catalog.names, List.length_map]
  have hNumber : ∀ id name, catalog.number? name = some id ↔
      (registeredNames changes)[id]? = some name := fun id name => by
    rw [← hNames]
    exact number?_eq_some_iff hNodup
  refine ⟨?_, hNumber, hNames ▸ hNodup, fun id name hName => ?_, fun aliasName id hAlias => ?_,
    fun t hMem => ?_, fun t hMem row hRow => ?_, fun change id name hBefore => ?_,
    fun name schema primaryKey rows id t hTable hOther => ?_⟩
  · rw [tableNumbers, hLength]
  · obtain ⟨t, hTable, rfl⟩ := exists_table_of_number? ((hNumber id name).mpr hName)
    obtain ⟨rows, since, hLatest, hRows⟩ := hTables hTable
    obtain ⟨hOk, hScan⟩ := scan_of_getElem? hTable
    exact ⟨t, rows, since, hOk, rfl, hLatest, by rw [hScan, hRows]⟩
  · rw [tableNumbers, List.mem_range, ← hCatalog]
    exact alias_lt_afterAll pageSize changes (hCatalog ▸ hAlias)
  · obtain ⟨id, hTable⟩ := List.mem_iff_getElem?.mp hMem
    obtain ⟨rows, since, hLatest, -⟩ := hTables hTable
    exact hLatest.allowed
  · exact hReachable.fits t hMem row hRow
  · rw [number?_eq_some_iff hNodup] at hBefore
    rw [number?_eq_some_iff (Change.reachable_apply hReachable change).nodup_names,
      Change.names_apply]
    exact Change.getElem?_withName hBefore _
  · have hKept : (Change.register name schema primaryKey rows).registers? ≠ some t.name := by
      intro hSame
      obtain ⟨_, _, _, hEq, -⟩ := Change.registers?_eq_some_iff.mp hSame
      cases hEq
      exact hOther rfl
    have hAfter := Change.getElem?_apply_of_kept hNodup hTable hKept
    rw [show Change.rowsFor t.name t.schema (.register name schema primaryKey rows) = [] from rfl,
      List.append_nil] at hAfter
    exact hAfter

end JoinPlanner
