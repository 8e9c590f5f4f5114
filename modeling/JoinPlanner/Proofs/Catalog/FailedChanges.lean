import JoinPlanner.Proofs.Catalog.Changes

/-!
# JoinPlanner — changes that fail

A change is refused before anything happens if there is no table of its name, or if its key is
no column. Rows are looked at one by one, so a change that fails at a row leaves behind what it
would have made of the rows before that one: it is not undone.

* `SameContents`       — two catalogs hold the same tables and resolve the same aliases.
* `Refused`, `StopsAt` — the two ways to fail.
* `apply_error_cases`  — what a failed change leaves behind.
* `sameContents_apply_iff` — when a change makes no difference.
* `failed_replaces_table` — a failed change may cost a table its rows.
* `failed_leaves`      — what a failed change leaves, and what it leaves alone.
-/

namespace JoinPlanner

/-- Two catalogs hold the same tables under the same numbers, and resolve the same aliases. -/
structure SameContents (catalog other : Catalog) : Prop where
  tables : catalog.tables = other.tables
  aliases : ∀ aliasName, catalog.resolve aliasName = other.resolve aliasName

namespace Change

open Catalog

-- ---------------------------------------------------------------------------
-- How changes fail
-- ---------------------------------------------------------------------------

/-- The rows that a change brings. -/
def rows : Change → List Row
  | register _ _ _ rows => rows
  | append _ rows => rows
  | setAlias _ _ => []

/-- The change with other rows. -/
def withRows (rows : List Row) : Change → Change
  | register name schema primaryKey _ => register name schema primaryKey rows
  | append name _ => append name rows
  | setAlias aliasName name => setAlias aliasName name

/-- The name whose table or alias the change is about. -/
def target : Change → String
  | register name _ _ _ => name
  | append name _ => name
  | setAlias aliasName _ => aliasName

/-- The change is refused as a whole. -/
inductive Refused (catalog : Catalog) : Change → PlannerError → Prop
  | key {name : String} {schema : Schema} {primaryKey : String} {rows : List Row}
      (noColumn : ¬ schema.AllowsKey primaryKey) :
      Refused catalog (register name schema primaryKey rows) (.keyNotInSchema primaryKey schema)
  | append {name : String} {rows : List Row} (unknown : name ∉ catalog.names) :
      Refused catalog (append name rows) (.noSuchTable name)
  | setAlias {aliasName name : String} (unknown : name ∉ catalog.names) :
      Refused catalog (setAlias aliasName name) (.noSuchTable name)

/-- The change stops at a row that does not fit, after some that do. -/
structure StopsAt (change : Change) (accepted : List Row) (bad : Row) (schema : Schema) : Prop where
  rows : ∃ rest, change.rows = accepted ++ bad :: rest
  accepted : ∀ row ∈ accepted, schema.Fits row
  bad : ¬ schema.Fits bad

variable {catalog : Catalog} {change : Change} {e : PlannerError}

/-- If rows are not all accepted, those that fit are followed by one that does not. -/
theorem exists_of_acceptRows_error {schema : Schema} {rows : List Row}
    (h : (acceptRows schema rows).2 = .error e) :
    ∃ bad rest, e = .rowMismatch bad schema ∧ rows = schema.fitting rows ++ bad :: rest ∧
      ¬ schema.Fits bad ∧
      acceptRows schema (schema.fitting rows) = (schema.fitting rows, .ok ()) := by
  rcases acceptRows_cases schema rows with
    ⟨-, hAccept⟩ | ⟨accepted, bad, rest, rfl, hAccepted, hBad, hAccept⟩
  · rw [hAccept] at h
    cases h
  · rw [hAccept] at h
    cases h
    rw [Schema.fitting_append_cons hAccepted hBad]
    exact ⟨bad, rest, rfl, rfl, hBad, acceptRows_of_forall hAccepted⟩

/-- A change that stops at a row leaves what it would have left without this and later rows. -/
theorem apply_error_cases (h : (change.apply catalog).2 = .error e) :
    (Refused catalog change e ∧ (change.apply catalog).1 = catalog) ∨
    ∃ accepted bad schema, e = .rowMismatch bad schema ∧ change.StopsAt accepted bad schema ∧
      (change.withRows accepted).apply catalog = ((change.apply catalog).1, .ok ()) := by
  cases change with
  | register name schema primaryKey rows =>
    by_cases hKey : schema.AllowsKey primaryKey
    · right
      simp only [apply, withRows, register_of_allowed hKey] at h ⊢
      have hAccept : (acceptRows schema rows).2 = .error e := by
        cases hOutcome : (acceptRows schema rows).2 with
        | ok _ =>
          rw [hOutcome] at h
          cases h
        | error _ =>
          rw [hOutcome] at h
          cases h
          rfl
      obtain ⟨bad, rest, rfl, hRows, hBad, hFitting⟩ := exists_of_acceptRows_error hAccept
      refine ⟨schema.fitting rows, bad, schema, rfl,
        ⟨⟨rest, hRows⟩, fun _ => Schema.fits_of_mem_fitting, hBad⟩, ?_⟩
      rw [Schema.fitting_of_forall fun _ => Schema.fits_of_mem_fitting, hFitting]
      rfl
    · simp only [apply, register_of_not_allowed hKey] at h ⊢
      cases h
      exact Or.inl ⟨.key hKey, trivial⟩
  | append name rows =>
    simp only [apply, withRows] at h ⊢
    cases hNumber : catalog.number? name with
    | none =>
      rw [append_of_number?_none hNumber] at h ⊢
      cases h
      exact Or.inl ⟨.append (number?_eq_none_iff.mp hNumber), rfl⟩
    | some n =>
      right
      obtain ⟨t, hTable, -⟩ := exists_table_of_number? hNumber
      simp only [append_of_getElem? hNumber hTable] at h ⊢
      obtain ⟨bad, rest, rfl, hRows, hBad, hFitting⟩ := exists_of_acceptRows_error h
      refine ⟨t.schema.fitting rows, bad, t.schema, rfl,
        ⟨⟨rest, hRows⟩, fun _ => Schema.fits_of_mem_fitting, hBad⟩, ?_⟩
      rw [Schema.fitting_of_forall fun _ => Schema.fits_of_mem_fitting, hFitting]
  | setAlias aliasName name =>
    simp only [apply, Catalog.setAlias] at h ⊢
    cases hNumber : catalog.number? name with
    | none =>
      rw [hNumber] at h
      cases h
      exact Or.inl ⟨.setAlias (number?_eq_none_iff.mp hNumber), rfl⟩
    | some n =>
      rw [hNumber] at h
      cases h

-- ---------------------------------------------------------------------------
-- Changes that make no difference
-- ---------------------------------------------------------------------------

/-- The change asks for what is there already. -/
def AsksForNothing (catalog : Catalog) : Change → Prop
  | register name schema primaryKey rows => ∃ n, catalog.number? name = some n ∧
      catalog.tables[n]? = some ⟨name, schema, primaryKey, rows⟩ ∧
      catalog.resolve (some name) = some n
  | append _ rows => rows = []
  | setAlias aliasName name => catalog.resolve (some aliasName) = catalog.number? name

/-- An alias that is set resolves as before exactly if it stood for the number already. -/
theorem resolve_put_iff (aliases : Association String Nat) (aliasName : String) (n : Nat) :
    (∀ other : Option String, other.bind (aliases.put aliasName n).get? = other.bind aliases.get?) ↔
      aliases.get? aliasName = some n := by
  constructor
  · intro h
    have hThis := h (some aliasName)
    simp only [Option.bind_some, Association.get?_put, beq_self_eq_true, if_true] at hThis
    exact hThis.symm
  · intro h other
    cases other with
    | none => rfl
    | some other =>
      simp only [Option.bind_some, Association.get?_put]
      split
      · rename_i hSame
        rw [← eq_of_beq hSame, h]
      · rfl

theorem placeTable_eq_self_iff {tables : List Table} {n : Nat} {t : Table} (h : n ≤ tables.length) :
    placeTable tables n t = tables ↔ tables[n]? = some t := by
  constructor
  · intro hSame
    rw [← hSame, getElem?_placeTable h, if_pos rfl]
  · intro hTable
    refine List.ext_getElem? fun i => ?_
    rw [getElem?_placeTable h]
    split
    · rename_i hi
      rw [hi, hTable]
    · rfl

/-- If all rows are accepted, all of them fit. -/
theorem fitting_of_ok {schema : Schema} {rows : List Row}
    (h : (acceptRows schema rows).2 = .ok ()) : schema.fitting rows = rows := by
  rcases acceptRows_cases schema rows with ⟨hAll, -⟩ | ⟨_, _, _, _, -, -, hAccept⟩
  · exact Schema.fitting_of_forall hAll
  · rw [hAccept] at h
    cases h

/-- A registered table makes no difference exactly if it was there already. -/
theorem sameContents_register_iff {schema : Schema} {primaryKey : String} (name : String)
    (hKey : schema.AllowsKey primaryKey) {rows : List Row} (hFit : schema.fitting rows = rows) :
    SameContents (catalog.register name schema primaryKey rows).1 catalog ↔
      (register name schema primaryKey rows).AsksForNothing catalog := by
  have hPlace := catalog.numberFor_le name
  rw [register_of_allowed hKey, hFit]
  constructor
  · rintro ⟨hTables, hAliases⟩
    have hTable := (placeTable_eq_self_iff hPlace).mp hTables
    cases hNumber : catalog.number? name with
    | none => simp [numberFor, hNumber] at hTable
    | some n =>
      have hThis : catalog.numberFor name = n := by simp [numberFor, hNumber]
      rw [hThis] at hTable
      refine ⟨n, hNumber, hTable, ?_⟩
      exact hThis ▸ (resolve_put_iff _ _ _).mp hAliases
  · rintro ⟨n, hNumber, hTable, hAlias⟩
    have hThis : catalog.numberFor name = n := by simp [numberFor, hNumber]
    rw [hThis] at hPlace ⊢
    exact ⟨(placeTable_eq_self_iff hPlace).mpr hTable, (resolve_put_iff _ _ _).mpr hAlias⟩

/-- Rows that are appended make a difference, if there are any. -/
theorem sameContents_append_iff {n : Nat} {t : Table} (hNumber : catalog.number? name = some n)
    (hTable : catalog.tables[n]? = some t) {rows : List Row} (hFit : t.schema.fitting rows = rows) :
    SameContents (catalog.append name rows).1 catalog ↔ rows = [] := by
  rw [append_of_getElem? hNumber hTable, hFit]
  constructor
  · rintro ⟨hTables, -⟩
    have hAt := congrArg (·[n]?) hTables
    simp only [List.getElem?_set, if_true, (List.getElem?_eq_some_iff.mp hTable).1, hTable,
      Option.some.injEq] at hAt
    simpa using congrArg Table.rows hAt
  · rintro rfl
    refine ⟨?_, fun _ => rfl⟩
    obtain ⟨hn, rfl⟩ := List.getElem?_eq_some_iff.mp hTable
    simp only [List.append_nil]
    exact List.set_getElem_self hn

/-- A change that succeeds makes no difference exactly if it asks for nothing new. -/
theorem sameContents_apply_iff (hOk : (change.apply catalog).2 = .ok ()) :
    SameContents (change.apply catalog).1 catalog ↔ change.AsksForNothing catalog := by
  cases change with
  | register name schema primaryKey rows =>
    by_cases hKey : schema.AllowsKey primaryKey
    · refine sameContents_register_iff name hKey (fitting_of_ok ?_)
      simp only [apply, register_of_allowed hKey] at hOk
      cases hAccept : (acceptRows schema rows).2 with
      | ok _ => rfl
      | error e =>
        rw [hAccept] at hOk
        cases hOk
    · simp only [apply, register_of_not_allowed hKey] at hOk
      cases hOk
  | append name rows =>
    simp only [apply] at hOk
    cases hNumber : catalog.number? name with
    | none =>
      rw [append_of_number?_none hNumber] at hOk
      cases hOk
    | some n =>
      obtain ⟨t, hTable, -⟩ := exists_table_of_number? hNumber
      rw [append_of_getElem? hNumber hTable] at hOk
      exact sameContents_append_iff hNumber hTable (fitting_of_ok hOk)
  | setAlias aliasName name =>
    simp only [apply, AsksForNothing, Catalog.setAlias] at hOk ⊢
    cases hNumber : catalog.number? name with
    | none =>
      rw [hNumber] at hOk
      cases hOk
    | some n =>
      simp only
      refine Iff.trans ?_ (resolve_put_iff catalog.aliases aliasName n)
      exact ⟨fun h => h.aliases, fun h => ⟨rfl, h⟩⟩

-- ---------------------------------------------------------------------------
-- What is left alone
-- ---------------------------------------------------------------------------

/-- The tables of other names stay. -/
theorem getElem?_apply_of_other (hNames : catalog.names.Nodup) {id : Nat} {t : Table}
    (hTable : catalog.tables[id]? = some t) (hOther : t.name ≠ change.target) :
    (change.apply catalog).1.tables[id]? = some t := by
  have hKept : change.registers? ≠ some t.name := by
    intro hSame
    obtain ⟨_, _, _, rfl, -⟩ := registers?_eq_some_iff.mp hSame
    exact hOther rfl
  have hRows : change.rowsFor t.name t.schema = [] := by
    cases change with
    | append name rows => exact if_neg (Ne.symm hOther)
    | register _ _ _ _ => rfl
    | setAlias _ _ => rfl
  rw [getElem?_apply_of_kept hNames hTable hKept, hRows, List.append_nil]

/-- Other aliases resolve as before. -/
theorem resolve_apply_of_other {aliasName : Option String}
    (hOther : aliasName ≠ some change.target) :
    (change.apply catalog).1.resolve aliasName = catalog.resolve aliasName := by
  have hPut : ∀ n, aliasName.bind (catalog.aliases.put change.target n).get? =
      aliasName.bind catalog.aliases.get? := by
    intro n
    cases aliasName with
    | none => rfl
    | some other =>
      have hNe : (change.target == other) = false :=
        beq_eq_false_iff_ne.mpr fun h => hOther (congrArg some h.symm)
      show (catalog.aliases.put change.target n).get? other = catalog.aliases.get? other
      rw [Association.get?_put, hNe, if_neg Bool.false_ne_true]
  cases change with
  | register name schema primaryKey rows =>
    by_cases hKey : schema.AllowsKey primaryKey
    · simp only [apply, register_of_allowed hKey]
      exact hPut _
    · simp only [apply, register_of_not_allowed hKey]
  | append name rows =>
    show aliasName.bind (catalog.append name rows).1.aliases.get? = _
    rw [Catalog.aliases_append]
    rfl
  | setAlias other name =>
    simp only [apply, Catalog.setAlias]
    split
    · rfl
    · exact hPut _

-- ---------------------------------------------------------------------------
-- Failed changes
-- ---------------------------------------------------------------------------

/-- What is left of a catalog after a change that has failed. -/
structure LeavesAfterFailure (catalog after : Catalog) (change : Change) (e : PlannerError) :
    Prop where
  /-- A change that is refused leaves everything. One that stops at a row leaves what it would
  have left, with success, had this and the later rows not been there. -/
  cause : (Refused catalog change e ∧ after = catalog) ∨
    ∃ accepted bad schema, e = .rowMismatch bad schema ∧ change.StopsAt accepted bad schema ∧
      (change.withRows accepted).apply catalog = (after, .ok ()) ∧
      (SameContents after catalog ↔ (change.withRows accepted).AsksForNothing catalog)
  tables : ∀ (id : Nat) t, catalog.tables[id]? = some t → t.name ≠ change.target →
    after.tables[id]? = some t
  aliases : ∀ aliasName, aliasName ≠ some change.target →
    after.resolve aliasName = catalog.resolve aliasName

/-- Only a row that does not fit can make a failed change leave a trace. -/
theorem failed_leaves (hReachable : catalog.Reachable)
    (hError : (change.apply catalog).2 = .error e) :
    LeavesAfterFailure catalog (change.apply catalog).1 change e := by
  refine ⟨?_, fun id t => getElem?_apply_of_other hReachable.nodup_names,
    fun aliasName => resolve_apply_of_other⟩
  rcases apply_error_cases hError with
    ⟨hRefused, hSame⟩ | ⟨accepted, bad, schema, hCause, hStops, hApply⟩
  · exact Or.inl ⟨hRefused, hSame⟩
  · refine Or.inr ⟨accepted, bad, schema, hCause, hStops, hApply, ?_⟩
    have hIff := sameContents_apply_iff (congrArg Prod.snd hApply)
    rwa [hApply] at hIff

/-- A catalog with one table of two rows. -/
def oneTable : Catalog :=
  ((Catalog.empty 4096).register "A" ⟨[⟨"id", .integer⟩]⟩ "" [[.int 1], [.int 2]]).1

theorem reachable_oneTable : oneTable.Reachable := .register (.empty 4096) _ _ _ _

/-- Its table is registered again, with a second row that does not fit. -/
def misfit : Change := .register "A" ⟨[⟨"id", .integer⟩]⟩ "" [[.int 7], [.int 1, .int 2]]

/-- Registering a table again can fail after its rows have been dropped. -/
theorem failed_replaces_table : ¬ ∀ catalog : Catalog, catalog.Reachable → ∀ change e,
    (Change.apply catalog change).2 = .error e →
      SameContents (Change.apply catalog change).1 catalog := by
  intro h
  have hSame := h oneTable reachable_oneTable misfit _ rfl
  have hRows := congrArg (List.map Table.rows) hSame.tables
  exact absurd hRows (by decide +kernel)

/-- The failed change at these rows: its first row takes the place of the two. -/
theorem failed_leaves_misfit :
    (∃ e, (misfit.apply oneTable).2 = .error e ∧
      LeavesAfterFailure oneTable (misfit.apply oneTable).1 misfit e) ∧
      (misfit.apply oneTable).1.tables.map Table.rows = [[[.int 7]]] :=
  ⟨⟨_, rfl, failed_leaves reachable_oneTable rfl⟩, by decide +kernel⟩

end Change

end JoinPlanner
