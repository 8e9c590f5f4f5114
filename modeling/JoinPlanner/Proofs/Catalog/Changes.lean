import JoinPlanner.Proofs.Catalog.Names
import JoinPlanner.Proofs.Lookup
import Mathlib.Data.List.Nodup
import Mathlib.Data.List.TakeWhile

/-!
# JoinPlanner — changes of a catalog

A catalog changes when a table is registered, when rows are appended to a table, and when a
table gets another name. This module says once what each of them can do; the history of a
catalog and the changes that fail follow from it.

* `Change`, `Change.apply` — a change, the catalog after it and its outcome.
* `Schema.fitting`, `acceptRows_cases` — rows are accepted up to the first one that does not fit.
* `append_of_number?`, `register_of_allowed` — the catalog after a change, in one piece.
* `getElem?_apply`   — a table stays, takes up rows, or gives way to a registered one.
* `get?_apply_aliases` — an alias stays, or it stands for the table of the change.
* `Reachable.fits`   — whatever has been changed, all rows fit.
-/

namespace JoinPlanner

-- ---------------------------------------------------------------------------
-- Rows and keys
-- ---------------------------------------------------------------------------

namespace Schema

/-- A row fits if it has a cell for every column. -/
def Fits (schema : Schema) (row : Row) : Prop := row.length = schema.columns.length

instance (schema : Schema) (row : Row) : Decidable (schema.Fits row) :=
  inferInstanceAs (Decidable (_ = _))

/-- The rows up to the first one that does not fit. -/
def fitting (schema : Schema) (rows : List Row) : List Row :=
  rows.takeWhile fun row => decide (schema.Fits row)

/-- A key is one of the columns, unless there is none. -/
def AllowsKey (schema : Schema) (primaryKey : String) : Prop :=
  primaryKey = "" ∨ primaryKey ∈ schema.names

instance (schema : Schema) (primaryKey : String) : Decidable (schema.AllowsKey primaryKey) :=
  inferInstanceAs (Decidable (_ ∨ _))

theorem fits_of_mem_fitting {schema : Schema} {rows : List Row} {row : Row}
    (h : row ∈ schema.fitting rows) : schema.Fits row := by
  simpa using List.mem_takeWhile_imp h

theorem fitting_of_forall {schema : Schema} {rows : List Row} (h : ∀ row ∈ rows, schema.Fits row) :
    schema.fitting rows = rows :=
  List.takeWhile_eq_self_iff.mpr fun row hRow => decide_eq_true (h row hRow)

theorem fitting_append_cons {schema : Schema} {accepted rest : List Row} {bad : Row}
    (h : ∀ row ∈ accepted, schema.Fits row) (hBad : ¬ schema.Fits bad) :
    schema.fitting (accepted ++ bad :: rest) = accepted := by
  unfold fitting
  rw [List.takeWhile_append_of_pos fun row hRow => decide_eq_true (h row hRow),
    List.takeWhile_cons_of_neg (by simpa using hBad), List.append_nil]

theorem allowsKey_iff {schema : Schema} {primaryKey : String} :
    schema.AllowsKey primaryKey ↔
      (!primaryKey.isEmpty && !schema.names.contains primaryKey) = false := by
  simp only [AllowsKey, Bool.and_eq_false_iff, Bool.not_eq_false', List.contains_iff_mem,
    String.isEmpty_iff]

end Schema

namespace Catalog

/-- All rows are accepted, or those before the first one that does not fit. -/
theorem acceptRows_cases (schema : Schema) (rows : List Row) :
    ((∀ row ∈ rows, schema.Fits row) ∧ acceptRows schema rows = (rows, .ok ())) ∨
    ∃ accepted bad rest, rows = accepted ++ bad :: rest ∧ (∀ row ∈ accepted, schema.Fits row) ∧
      ¬ schema.Fits bad ∧
      acceptRows schema rows = (accepted, .error (.rowMismatch bad schema)) := by
  induction rows with
  | nil => exact Or.inl ⟨by simp, rfl⟩
  | cons row rows ih =>
    by_cases hRow : schema.Fits row
    · have hStep : acceptRows schema (row :: rows) =
          (row :: (acceptRows schema rows).1, (acceptRows schema rows).2) := if_pos hRow
      rcases ih with ⟨hAll, hAccept⟩ | ⟨accepted, bad, rest, rfl, hAccepted, hBad, hAccept⟩
      · exact Or.inl ⟨by simpa [hRow] using hAll, by rw [hStep, hAccept]⟩
      · exact Or.inr ⟨row :: accepted, bad, rest, rfl, by simpa [hRow] using hAccepted, hBad,
          by rw [hStep, hAccept]⟩
    · exact Or.inr ⟨[], row, rows, rfl, by simp, hRow, if_neg hRow⟩

theorem acceptRows_of_forall {schema : Schema} {rows : List Row}
    (h : ∀ row ∈ rows, schema.Fits row) : acceptRows schema rows = (rows, .ok ()) := by
  rcases acceptRows_cases schema rows with ⟨-, hAll⟩ | ⟨accepted, bad, rest, rfl, -, hBad, -⟩
  · exact hAll
  · exact absurd (h bad (by simp)) hBad

theorem acceptRows_eq (schema : Schema) (rows : List Row) :
    acceptRows schema rows = (schema.fitting rows, (acceptRows schema rows).2) := by
  rcases acceptRows_cases schema rows with
    ⟨hAll, h⟩ | ⟨accepted, bad, rest, rfl, hAccepted, hBad, h⟩
  · rw [Schema.fitting_of_forall hAll, h]
  · rw [Schema.fitting_append_cons hAccepted hBad, h]

-- ---------------------------------------------------------------------------
-- Places
-- ---------------------------------------------------------------------------

variable {catalog : Catalog} {name : String}

theorem number?_eq_findIdx? (catalog : Catalog) (name : String) :
    catalog.number? name = catalog.names.findIdx? (· == name) := by
  unfold number? names
  rw [List.findIdx?_map]
  rfl

theorem getElem?_names {id : Nat} {t : Table} (h : catalog.tables[id]? = some t) :
    catalog.names[id]? = some t.name := by
  simp [names, h]

/-- If names are distinct, each is that of the table with its number. -/
theorem number?_eq_some_iff (hNames : catalog.names.Nodup) {n : Nat} :
    catalog.number? name = some n ↔ catalog.names[n]? = some name := by
  rw [number?_eq_findIdx?, List.findIdx?_eq_some_iff_getElem]
  constructor
  · rintro ⟨hn, hName, -⟩
    rw [List.getElem?_eq_getElem hn, eq_of_beq hName]
  · intro h
    obtain ⟨hn, hName⟩ := List.getElem?_eq_some_iff.mp h
    refine ⟨hn, beq_iff_eq.mpr hName, fun j hj hSame => ?_⟩
    have hEq : j = n := hNames.getElem_inj_iff.mp ((eq_of_beq hSame).trans hName.symm)
    omega

/-- The number that a table of the name has, or will have. -/
def numberFor (catalog : Catalog) (name : String) : Nat :=
  (catalog.number? name).getD catalog.tables.length

theorem numberFor_le (catalog : Catalog) (name : String) :
    catalog.numberFor name ≤ catalog.tables.length := by
  unfold numberFor
  cases hNumber : catalog.number? name with
  | none => simp
  | some n =>
    obtain ⟨t, hTable, -⟩ := exists_table_of_number? hNumber
    have := (List.getElem?_eq_some_iff.mp hTable).1
    simp only [Option.getD_some]
    omega

theorem number?_of_getElem? (hNames : catalog.names.Nodup) {id : Nat} {t : Table}
    (hTable : catalog.tables[id]? = some t) : catalog.number? t.name = some id :=
  (number?_eq_some_iff hNames).mpr (getElem?_names hTable)

/-- The place of a name is that of no table with another name. -/
theorem ne_numberFor {id : Nat} {t : Table} (hTable : catalog.tables[id]? = some t)
    (hOther : name ≠ t.name) :
    id ≠ catalog.numberFor name := by
  unfold numberFor
  rintro rfl
  cases hNumber : catalog.number? name with
  | none => simp [hNumber] at hTable
  | some n =>
    obtain ⟨u, hAt, rfl⟩ := exists_table_of_number? hNumber
    rw [hNumber, Option.getD_some] at hTable
    cases hAt.symm.trans hTable
    exact hOther rfl

theorem getElem?_placeTable {tables : List Table} {n : Nat} (h : n ≤ tables.length) (t : Table)
    (i : Nat) : (placeTable tables n t)[i]? = if i = n then some t else tables[i]? := by
  unfold placeTable
  split
  · rename_i hn
    rw [List.getElem?_set]
    simp [hn, eq_comm]
  · obtain rfl : n = tables.length := by omega
    rcases Nat.lt_trichotomy i tables.length with hi | rfl | hi
    · rw [List.getElem?_append_left hi, if_neg (by omega)]
    · simp
    · rw [if_neg (by omega), List.getElem?_eq_none (by simp; omega),
        List.getElem?_eq_none (by omega)]

theorem length_placeTable {tables : List Table} {n : Nat} (t : Table) :
    tables.length ≤ (placeTable tables n t).length ∧
      (n ≤ tables.length → n < (placeTable tables n t).length) := by
  unfold placeTable
  split
  · simpa using fun _ => ‹_›
  · simp only [List.length_append, List.length_singleton]
    omega

/-- Setting a placed table once more places the later one. -/
theorem set_placeTable {tables : List Table} {n : Nat} (h : n ≤ tables.length) (t u : Table) :
    (placeTable tables n t).set n u = placeTable tables n u := by
  refine List.ext_getElem? fun i => ?_
  rw [List.getElem?_set, getElem?_placeTable h, getElem?_placeTable h,
    if_pos ((length_placeTable t).2 h)]
  rcases eq_or_ne n i with rfl | hi
  · simp
  · simp [hi, hi.symm]

-- ---------------------------------------------------------------------------
-- Single changes
-- ---------------------------------------------------------------------------

theorem append_of_number?_none (h : catalog.number? name = none) (rows : List Row) :
    catalog.append name rows = (catalog, .error (.noSuchTable name)) := by
  unfold append
  rw [h]

/-- A table takes up the rows that fit. -/
theorem append_of_getElem? {n : Nat} {t : Table} (h : catalog.number? name = some n)
    (hTable : catalog.tables[n]? = some t) (rows : List Row) :
    catalog.append name rows =
      ({ catalog with
          tables := catalog.tables.set n { t with rows := t.rows ++ t.schema.fitting rows } },
        (acceptRows t.schema rows).2) := by
  unfold append
  simp only [h, hTable]
  rw [acceptRows_eq]

theorem register_of_not_allowed {schema : Schema} {primaryKey : String}
    (h : ¬ schema.AllowsKey primaryKey) (name : String) (rows : List Row) :
    catalog.register name schema primaryKey rows =
      (catalog, .error (.keyNotInSchema primaryKey schema)) := by
  unfold register
  rw [Schema.allowsKey_iff, Bool.not_eq_false] at h
  rw [if_pos h]

theorem aliases_append (catalog : Catalog) (name : String) (rows : List Row) :
    (catalog.append name rows).1.aliases = catalog.aliases := by
  unfold append
  split
  · rfl
  · split <;> rfl

/-- Rows are taken up by the table of their name and by no other. -/
theorem getElem?_append (hNames : catalog.names.Nodup) {id : Nat} {t : Table}
    (hTable : catalog.tables[id]? = some t) (name : String) (rows : List Row) :
    (catalog.append name rows).1.tables[id]? =
      some { t with rows := t.rows ++ if name = t.name then t.schema.fitting rows else [] } := by
  have hNumber := number?_of_getElem? hNames hTable
  by_cases hSame : name = t.name
  · subst hSame
    rw [append_of_getElem? hNumber hTable, if_pos rfl]
    simp [(List.getElem?_eq_some_iff.mp hTable).1]
  · rw [if_neg hSame, List.append_nil]
    cases hOther : catalog.number? name with
    | none => rw [append_of_number?_none hOther, hTable]
    | some n =>
      obtain ⟨u, hAt, rfl⟩ := exists_table_of_number? hOther
      have hNe : n ≠ id := by
        rintro rfl
        cases hAt.symm.trans hTable
        exact hSame rfl
      rw [append_of_getElem? hOther hAt]
      simp [hNe, hTable]

/-- The names after a table of the name has been placed. -/
theorem number?_placed (catalog : Catalog) (t : Table) (aliases : Association String Nat) :
    ({ catalog with
        tables := placeTable catalog.tables (catalog.numberFor t.name) t
        aliases } : Catalog).number? t.name = some (catalog.numberFor t.name) := by
  have hNames := map_name_placeTable catalog t
  rw [number?_eq_findIdx?]
  show (List.map Table.name (placeTable _ _ _)).findIdx? _ = _
  unfold numberFor
  rw [hNames]
  cases hNumber : catalog.number? t.name with
  | some n =>
    have hMem : t.name ∈ catalog.names := by
      by_contra hNot
      rw [number?_eq_none_iff.mpr hNot] at hNumber
      cases hNumber
    rw [if_pos hMem, ← number?_eq_findIdx?, hNumber]
    rfl
  | none =>
    have hNot := number?_eq_none_iff.mp hNumber
    rw [if_neg hNot, List.findIdx?_append, ← number?_eq_findIdx?, hNumber]
    simp [names]

/-- A table that is registered is placed with those of its rows that fit. -/
theorem register_of_allowed {schema : Schema} {primaryKey : String}
    (h : schema.AllowsKey primaryKey) (catalog : Catalog) (name : String) (rows : List Row) :
    catalog.register name schema primaryKey rows =
      ({ catalog with
          tables := placeTable catalog.tables (catalog.numberFor name)
            ⟨name, schema, primaryKey, schema.fitting rows⟩
          aliases := catalog.aliases.put name (catalog.numberFor name) },
        (acceptRows schema rows).2.map fun _ => catalog.numberFor name) := by
  have hPlace := catalog.numberFor_le name
  have hAppend := append_of_getElem?
    (number?_placed catalog ⟨name, schema, primaryKey, []⟩
      (catalog.aliases.put name (catalog.numberFor name)))
    ((getElem?_placeTable hPlace _ _).trans (if_pos rfl)) rows
  rw [set_placeTable hPlace] at hAppend
  unfold register
  rw [if_neg (Bool.eq_false_iff.mp (Schema.allowsKey_iff.mp h))]
  exact congrArg (fun r => (r.1, r.2.map fun _ => catalog.numberFor name)) hAppend

end Catalog

-- ---------------------------------------------------------------------------
-- Any change
-- ---------------------------------------------------------------------------

/-- A change of a catalog. -/
inductive Change where
  | register (name : String) (schema : Schema) (primaryKey : String) (rows : List Row)
  | append (name : String) (rows : List Row)
  | setAlias (aliasName name : String)

namespace Change

/-- The catalog that a change leaves behind, also if it fails, and how it ends. -/
def apply (catalog : Catalog) : Change → Catalog × Outcome Unit
  | register name schema primaryKey rows =>
    let (after, outcome) := catalog.register name schema primaryKey rows
    (after, outcome.map fun _ => ())
  | append name rows => catalog.append name rows
  | setAlias aliasName name => catalog.setAlias aliasName name

/-- The name that the change registers; none if its key is refused. -/
def registers? : Change → Option String
  | register name schema primaryKey _ => if schema.AllowsKey primaryKey then some name else none
  | _ => none

/-- The rows that the change adds to a table of some name and schema that it does not register. -/
def rowsFor (name : String) (schema : Schema) : Change → List Row
  | append other rows => if other = name then schema.fitting rows else []
  | _ => []

variable {catalog : Catalog} {change : Change}

theorem reachable_apply (h : catalog.Reachable) (change : Change) :
    (change.apply catalog).1.Reachable := by
  cases change with
  | register name schema primaryKey rows => exact h.register name schema primaryKey rows
  | append name rows => exact h.append name rows
  | setAlias aliasName name => exact h.setAlias aliasName name

theorem registers?_eq_some_iff {name : String} : change.registers? = some name ↔
    ∃ schema primaryKey rows, change = register name schema primaryKey rows ∧
      schema.AllowsKey primaryKey := by
  cases change with
  | register other schema primaryKey rows =>
    by_cases hKey : schema.AllowsKey primaryKey <;> simp [registers?, hKey]
  | append other rows => simp [registers?]
  | setAlias aliasName other => simp [registers?]

theorem apply_setAlias_tables (catalog : Catalog) (aliasName name : String) :
    ((setAlias aliasName name).apply catalog).1.tables = catalog.tables := by
  show (catalog.setAlias aliasName name).1.tables = _
  unfold Catalog.setAlias
  split <;> rfl

/-- The names, if one is registered; a new one comes last. -/
def withName (names : List String) : Option String → List String
  | none => names
  | some name => if name ∈ names then names else names ++ [name]

theorem length_le_withName (names : List String) (registered : Option String) :
    names.length ≤ (withName names registered).length := by
  cases registered with
  | none => exact Nat.le_refl _
  | some name =>
    show _ ≤ (if _ then _ else _ : List String).length
    split <;> simp

/-- A name keeps its place. -/
theorem getElem?_withName {names : List String} {id : Nat} {name : String}
    (h : names[id]? = some name) (registered : Option String) :
    (withName names registered)[id]? = some name := by
  cases registered with
  | none => exact h
  | some other =>
    show (if _ then _ else _ : List String)[id]? = _
    split
    · exact h
    · rw [List.getElem?_append_left (List.getElem?_eq_some_iff.mp h).1, h]

theorem names_apply (catalog : Catalog) (change : Change) :
    (change.apply catalog).1.names = withName catalog.names change.registers? := by
  cases change with
  | register name schema primaryKey rows =>
    by_cases hKey : schema.AllowsKey primaryKey
    · simp only [apply, registers?, if_pos hKey, Catalog.register_of_allowed hKey]
      exact Catalog.map_name_placeTable catalog ⟨name, schema, primaryKey, schema.fitting rows⟩
    · simp only [apply, registers?, if_neg hKey, Catalog.register_of_not_allowed hKey, withName]
  | append name rows => exact Catalog.names_append catalog name rows
  | setAlias aliasName name =>
    show ((setAlias aliasName name).apply catalog).1.tables.map _ = _
    rw [apply_setAlias_tables]
    rfl

/-- No table is ever removed. -/
theorem length_le_apply (catalog : Catalog) (change : Change) :
    catalog.tables.length ≤ (change.apply catalog).1.tables.length := by
  have hLength := length_le_withName catalog.names change.registers?
  rw [← names_apply, Catalog.names, Catalog.names, List.length_map, List.length_map] at hLength
  exact hLength

/-- A table that is not registered again takes up rows; if they are for another one, it stays. -/
theorem getElem?_apply_of_kept (hNames : catalog.names.Nodup) {id : Nat} {t : Table}
    (hTable : catalog.tables[id]? = some t) (hKept : change.registers? ≠ some t.name) :
    (change.apply catalog).1.tables[id]? =
      some { t with rows := t.rows ++ change.rowsFor t.name t.schema } := by
  cases change with
  | register name schema primaryKey rows =>
    by_cases hKey : schema.AllowsKey primaryKey
    · simp only [registers?, if_pos hKey, ne_eq, Option.some.injEq] at hKept
      simp only [apply, Catalog.register_of_allowed hKey, rowsFor, List.append_nil]
      rw [Catalog.getElem?_placeTable (catalog.numberFor_le name),
        if_neg (Catalog.ne_numberFor hTable hKept), hTable]
    · simp [apply, Catalog.register_of_not_allowed hKey, rowsFor, hTable]
  | append name rows => exact Catalog.getElem?_append hNames hTable name rows
  | setAlias aliasName name =>
    rw [apply_setAlias_tables, hTable]
    simp [rowsFor]

/-- A table after a change is an old one with the rows it took up, or it has been registered. -/
theorem getElem?_apply (hNames : catalog.names.Nodup) {id : Nat} {t : Table}
    (h : (change.apply catalog).1.tables[id]? = some t) :
    (∃ before, catalog.tables[id]? = some before ∧ change.registers? ≠ some before.name ∧
      t = { before with rows := before.rows ++ change.rowsFor before.name before.schema }) ∨
    ∃ rows, change = register t.name t.schema t.primaryKey rows ∧
      t.schema.AllowsKey t.primaryKey ∧ t.rows = t.schema.fitting rows := by
  by_cases hKept : ∃ before, catalog.tables[id]? = some before ∧
      change.registers? ≠ some before.name
  · obtain ⟨before, hTable, hOther⟩ := hKept
    rw [getElem?_apply_of_kept hNames hTable hOther] at h
    exact Or.inl ⟨before, hTable, hOther, (Option.some.inj h).symm⟩
  · right
    have hChanged : ∀ before, catalog.tables[id]? = some before →
        change.registers? = some before.name := by
      intro before hTable
      by_contra hOther
      exact hKept ⟨before, hTable, hOther⟩
    cases hRegisters : change.registers? with
    | none =>
      -- there are as many tables as before, so there was one with this number
      have hSame : (change.apply catalog).1.names = catalog.names := by
        rw [names_apply, hRegisters]
        rfl
      have hLength := congrArg List.length hSame
      simp only [Catalog.names, List.length_map] at hLength
      have hLt := (List.getElem?_eq_some_iff.mp h).1
      rw [hLength] at hLt
      cases hRegisters.symm.trans (hChanged _ (List.getElem?_eq_getElem hLt))
    | some name =>
      obtain ⟨schema, primaryKey, rows, rfl, hKey⟩ := registers?_eq_some_iff.mp hRegisters
      simp only [apply, Catalog.register_of_allowed hKey] at h
      rw [Catalog.getElem?_placeTable (catalog.numberFor_le name)] at h
      split at h
      · cases h
        exact ⟨rows, rfl, hKey, rfl⟩
      · rename_i hOther
        have hSame := Option.some.inj (hRegisters.symm.trans (hChanged t h))
        have hNumber := Catalog.number?_of_getElem? hNames h
        rw [← hSame] at hNumber
        exact absurd (by simp [Catalog.numberFor, hNumber]) hOther

/-- An alias stays, or it is one that the change sets, to the number of a table. -/
theorem get?_apply_aliases {aliasName : String} {id : Nat}
    (h : (change.apply catalog).1.aliases.get? aliasName = some id) :
    catalog.aliases.get? aliasName = some id ∨ id < (change.apply catalog).1.tables.length := by
  cases change with
  | register name schema primaryKey rows =>
    by_cases hKey : schema.AllowsKey primaryKey
    · simp only [apply, Catalog.register_of_allowed hKey, Association.get?_put] at h ⊢
      split at h
      · cases h
        exact Or.inr ((Catalog.length_placeTable _).2 (catalog.numberFor_le name))
      · exact Or.inl h
    · simp only [apply, Catalog.register_of_not_allowed hKey] at h
      exact Or.inl h
  | append name rows => exact Or.inl (catalog.aliases_append name rows ▸ h)
  | setAlias other name =>
    rw [apply_setAlias_tables]
    simp only [apply, Catalog.setAlias] at h
    cases hNumber : catalog.number? name with
    | none =>
      rw [hNumber] at h
      exact Or.inl h
    | some n =>
      simp only [hNumber, Association.get?_put] at h
      split at h
      · cases h
        obtain ⟨t, hTable, -⟩ := Catalog.exists_table_of_number? hNumber
        exact Or.inr (List.getElem?_eq_some_iff.mp hTable).1
      · exact Or.inl h

theorem fits_of_mem_rowsFor {name : String} {schema : Schema} {row : Row}
    (h : row ∈ change.rowsFor name schema) : schema.Fits row := by
  cases change with
  | append other rows =>
    simp only [rowsFor] at h
    split at h
    · exact Schema.fits_of_mem_fitting h
    · cases h
  | register _ _ _ _ => cases h
  | setAlias _ _ => cases h

/-- If all rows fit, so they do after a change. -/
theorem fits_apply (hNames : catalog.names.Nodup)
    (hFits : ∀ t ∈ catalog.tables, ∀ row ∈ t.rows, t.schema.Fits row) (change : Change) :
    ∀ t ∈ (change.apply catalog).1.tables, ∀ row ∈ t.rows, t.schema.Fits row := by
  intro t hMem row hRow
  obtain ⟨id, hTable⟩ := List.mem_iff_getElem?.mp hMem
  rcases getElem?_apply hNames hTable with ⟨before, hBefore, -, rfl⟩ | ⟨rows, -, -, hRows⟩
  · rcases List.mem_append.mp hRow with hOld | hNew
    · exact hFits before (List.mem_of_getElem? hBefore) row hOld
    · exact fits_of_mem_rowsFor hNew
  · rw [hRows] at hRow
    exact Schema.fits_of_mem_fitting hRow

end Change

/-- No table has rows that do not fit. -/
theorem Catalog.Reachable.fits {catalog : Catalog} (h : catalog.Reachable) :
    ∀ t ∈ catalog.tables, ∀ row ∈ t.rows, t.schema.Fits row := by
  induction h with
  | empty pageSize => exact fun t hMem => absurd hMem List.not_mem_nil
  | register before name schema primaryKey rows ih =>
    exact Change.fits_apply before.nodup_names ih (.register name schema primaryKey rows)
  | append before name rows ih =>
    exact Change.fits_apply before.nodup_names ih (.append name rows)
  | setAlias before aliasName name ih =>
    exact Change.fits_apply before.nodup_names ih (.setAlias aliasName name)

end JoinPlanner
