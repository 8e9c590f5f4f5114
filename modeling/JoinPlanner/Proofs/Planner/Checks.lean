import JoinPlanner.Planner.Basic
import JoinPlanner.Proofs.Components
import JoinPlanner.Proofs.Lookup
import JoinPlanner.Proofs.Search.Known

/-!
# JoinPlanner — what the checks tell

If the checks before a search pass, all tables of the joins are known to the search, and
the joins can be joined without a cross product.

* `ensure_eq_ok_iff`       — a check raises no error exactly if it passes.
* `isKnown_of_checkKnown`  — the first check goes through all tables.
* `known_of_isKnown`       — a table that passes it has statistics and a selectivity.
* `knownJoin_of_checks`, `named_of_checks` — both checks together.
* `checkInputs_of_known`   — linked joins of known tables pass both.
-/

namespace JoinPlanner

open Outcome

-- ---------------------------------------------------------------------------
-- Single checks
-- ---------------------------------------------------------------------------

theorem InputCheck.ensure_eq_ok_iff {check : InputCheck} :
    check.ensure = .ok () ↔ check.passed = true := by
  rw [InputCheck.ensure]
  by_cases hPassed : check.passed = true
  · simp [hPassed]
  · rw [if_neg hPassed]
    refine iff_of_false (fun h => ?_) hPassed
    split at h
    · cases h
    · split at h
      · obtain ⟨groups, -, hThrow⟩ := bind_eq_ok.mp h
        cases hThrow
      · cases h

theorem mem_sortedAliases {aliases sorted : List (Option String)}
    (h : sortedAliases aliases = .ok sorted) {aliasName : Option String} :
    aliasName ∈ sorted ↔ aliasName ∈ aliases := by
  rw [sortedAliases] at h
  split at h
  · cases h
  · cases h
    exact mem_sortBy _

theorem isKnown_of_checkKnown {catalog : Catalog} {stats : Snapshot}
    {selectivities : Option Selectivities} {predicates : List Predicate} {check : InputCheck}
    (h : checkKnown catalog stats selectivities predicates = .ok check)
    (hPassed : check.passed = true) :
    ∀ table ∈ Predicate.tablesIn predicates, isKnown catalog stats selectivities table = true := by
  simp only [checkKnown, bind_eq_ok] at h
  obtain ⟨aliases, hAliases, h⟩ := h
  intro table hTable
  by_contra hUnknown
  have hMem : table ∈ aliases.filter fun a => !isKnown catalog stats selectivities a := by
    rw [List.mem_filter, mem_sortedAliases hAliases]
    exact ⟨hTable, by simpa using hUnknown⟩
  split at h
  · rename_i hEmpty
    rw [List.isEmpty_iff.mp hEmpty] at hMem
    cases hMem
  · rw [pure_eq_ok] at h
    subst h
    cases hPassed

theorem checkLinked_eq_success {predicates : List Predicate} {check : InputCheck}
    (h : checkLinked predicates = .ok check) (hPassed : check.passed = true) :
    checkLinked predicates = .ok .success := by
  rw [h]
  rw [checkLinked] at h
  split at h
  · exact h.symm
  · obtain ⟨components, -, h⟩ := bind_eq_ok.mp h
    split at h
    · exact h.symm
    · rw [pure_eq_ok] at h
      subst h
      cases hPassed

-- ---------------------------------------------------------------------------
-- Known tables
-- ---------------------------------------------------------------------------

theorem statsOf_of_isSome {catalog : Catalog} {stats : Snapshot} {table : Option String}
    {s : Setting} (hCatalog : s.catalog = catalog) (hStats : s.stats = stats)
    (h : (catalog.statsOf? stats table).isSome) : ∃ found, s.statsOf table = .ok found := by
  subst hCatalog hStats
  obtain ⟨found, hFound⟩ := Option.isSome_iff_exists.mp h
  simp only [Catalog.statsOf?, Option.bind_eq_bind, Option.bind_eq_some_iff] at hFound
  obtain ⟨id, hId, entry, hEntry, hGet⟩ := hFound
  refine ⟨found, ?_⟩
  have hTable : s.catalog.table id = .ok entry := by
    rw [Catalog.table, if_neg (by omega), Int.toNat_natCast, hEntry]
  rw [Setting.statsOf, hId]
  refine bind_eq_ok.mpr ⟨entry, hTable, ?_⟩
  rw [hGet]
  rfl

/-- Without filters the tables of the joins, and no others, have a selectivity. -/
theorem get?_noFilters (joins : List Predicate) (a : String) :
    (Planner.noFilters joins).get? a =
      if some a ∈ Predicate.tablesIn joins then some (.real Binary64.one) else none := by
  have hMem : ∀ e, e ∈ Planner.noFilters joins ↔
      some e.1 ∈ Predicate.tablesIn joins ∧ e.2 = .real Binary64.one := by
    rintro ⟨b, q⟩
    simp only [Planner.noFilters, List.mem_filterMap, Option.map_eq_some_iff, Prod.mk.injEq]
    constructor
    · rintro ⟨_, hTable, _, rfl, rfl, rfl⟩
      exact ⟨hTable, rfl⟩
    · rintro ⟨hTable, rfl⟩
      exact ⟨some b, hTable, b, rfl, rfl, rfl⟩
  split
  · rename_i hTable
    obtain ⟨q, hGet⟩ :=
      Association.exists_get?_of_mem ((hMem (a, _)).mpr ⟨hTable, rfl⟩) (beq_self_eq_true a)
    obtain ⟨b, hEntry, -⟩ := Association.exists_mem_of_get? hGet
    exact hGet.trans (congrArg some ((hMem (b, q)).mp hEntry).2)
  · rename_i hTable
    refine Association.get?_eq_none_iff.mpr fun e he => Bool.eq_false_iff.mpr fun hKey => ?_
    exact hTable (eq_of_beq hKey ▸ ((hMem e).mp he).1)

namespace Planner

variable {planner : Planner} {catalog : Catalog} {stats : Snapshot}
  {selectivities : Option Selectivities}

/-- A table that passes the check is known to the search. -/
theorem known_of_isKnown {table : Option String} (hTable : table ∈ Predicate.tablesIn planner.joins)
    (h : isKnown catalog stats selectivities table = true) :
    (planner.setting catalog stats selectivities).Known table := by
  simp only [isKnown, Bool.and_eq_true] at h
  obtain ⟨hStats, hSelectivity⟩ := h
  refine ⟨statsOf_of_isSome rfl rfl hStats, ?_⟩
  cases selectivities with
  | some given => exact Option.isSome_iff_exists.mp hSelectivity
  | none =>
    cases table with
    | none => simp [Catalog.statsOf?, Catalog.resolve] at hStats
    | some a => exact ⟨_, (get?_noFilters planner.joins a).trans (if_pos hTable)⟩

theorem exists_of_checks (h : planner.checkInputs catalog stats selectivities = .ok ()) :
    (∀ table ∈ Predicate.tablesIn planner.joins, isKnown catalog stats selectivities table = true) ∧
      checkLinked planner.joins = .ok .success := by
  simp only [checkInputs, bind_eq_ok] at h
  obtain ⟨known, hKnown, _, hEnsure, linked, hLinked, hEnsure'⟩ := h
  exact ⟨isKnown_of_checkKnown hKnown (InputCheck.ensure_eq_ok_iff.mp hEnsure),
    checkLinked_eq_success hLinked (InputCheck.ensure_eq_ok_iff.mp hEnsure')⟩

/-- The checks pass if all tables are known and linked. -/
theorem checkInputs_of_known (hNodes : ∀ p ∈ planner.joins, JoinGraph.HasNodes p)
    (hKnown : ∀ table ∈ Predicate.tablesIn planner.joins,
      isKnown catalog stats selectivities table = true)
    (hLinked : Linked planner.joins) :
    planner.checkInputs catalog stats selectivities = .ok () := by
  have hNone : (Predicate.tablesIn planner.joins).contains none = false := by
    rw [Bool.eq_false_iff, ne_eq, List.contains_iff_mem]
    intro hMem
    obtain ⟨p, hp, hTable⟩ := Predicate.mem_tablesIn.mp hMem
    cases (hNodes p hp).isSome_of_mem_tables hTable
  have hUnknown : (Text.sortedOn (fun table => table.getD "")
      (Predicate.tablesIn planner.joins)).filter
        (fun table => !isKnown catalog stats selectivities table) = [] := by
    refine List.filter_eq_nil_iff.mpr fun table hTable => ?_
    simpa using hKnown table ((mem_sortBy _).mp hTable)
  rw [checkInputs, checkKnown, sortedAliases, hNone,
    (checkLinked_eq_success_iff hNodes).mpr hLinked]
  show (if _ = true then pure .success else pure _ : Outcome InputCheck) >>= _ = _
  rw [hUnknown]
  rfl

/-- If the checks pass, the tables of the joins are linked. -/
theorem linked_of_checks (h : planner.checkInputs catalog stats selectivities = .ok ()) :
    Linked planner.joins :=
  (checkLinked_eq_success_iff (hasNodes_of_checkLinked (exists_of_checks h).2)).mp
    (exists_of_checks h).2

/-- If the checks pass, the tables of all joins are known. -/
theorem known_of_checks (h : planner.checkInputs catalog stats selectivities = .ok ())
    {p : Predicate} (hp : p ∈ planner.joins) {table : Option String} (hTable : table ∈ p.tables) :
    (planner.setting catalog stats selectivities).Known table := by
  have hMem := Predicate.mem_tablesIn.mpr ⟨p, hp, hTable⟩
  exact known_of_isKnown hMem ((exists_of_checks h).1 table hMem)

/-- If the checks pass, both tables of a table join are known, in either orientation. -/
theorem known_sides_of_checks (h : planner.checkInputs catalog stats selectivities = .ok ())
    {p q : Predicate} (hp : p ∈ planner.joins) (hSame : q.SameJoin p)
    (hKind : q.isSubplan = false) :
    (planner.setting catalog stats selectivities).Known q.left.table ∧
      (planner.setting catalog stats selectivities).Known q.right.table := by
  have hNodes := (hasNodes_of_checkLinked (exists_of_checks h).2 p hp).of_sameJoin hSame
  have hKnown : ∀ table ∈ q.tables, (planner.setting catalog stats selectivities).Known table :=
    fun table hTable => known_of_checks h hp (hSame.mem_tables_iff.mp hTable)
  obtain ⟨kind, left, operator, right⟩ := q
  cases kind with
  | subplan => cases hKind
  | table =>
    refine ⟨hKnown _ ?_, hKnown _ ?_⟩
    · exact List.mem_filter.mpr ⟨List.mem_cons_self, hNodes.1⟩
    · exact List.mem_filter.mpr ⟨List.mem_cons_of_mem _ List.mem_cons_self, hNodes.2 rfl⟩

/-- If the checks pass, all joins are known. -/
theorem knownJoin_of_checks (h : planner.checkInputs catalog stats selectivities = .ok ())
    (hNamed : ∀ p ∈ planner.joins, p.Named) :
    ∀ p ∈ planner.joins, (planner.setting catalog stats selectivities).KnownJoin p :=
  fun p hp => Setting.knownJoin_of_named (hNamed p hp) fun _ hTable => known_of_checks h hp hTable

/-- If the checks pass, it is known whether the sides of a table join are keys. -/
theorem exists_isKey_of_checks (h : planner.checkInputs catalog stats selectivities = .ok ())
    {p : Predicate} (hp : p ∈ planner.joins) (hKind : p.isSubplan = false) :
    (∃ key, (planner.setting catalog stats selectivities).isKey p.left = .ok key) ∧
      ∃ key, (planner.setting catalog stats selectivities).isKey p.right = .ok key := by
  obtain ⟨hLeft, hRight⟩ := known_sides_of_checks h hp (.refl p) hKind
  exact ⟨Setting.exists_isKey (Or.inr hLeft), Setting.exists_isKey (Or.inr hRight)⟩

/-- If the checks pass, joins of tables have both aliases. -/
theorem named_of_checks (h : planner.checkInputs catalog stats selectivities = .ok ())
    (hTable : ∀ p ∈ planner.joins, p.kind = .table) : ∀ p ∈ planner.joins, p.Named := by
  intro p hp
  obtain ⟨hLeft, hRight⟩ := hasNodes_of_checkLinked (exists_of_checks h).2 p hp
  exact ⟨hLeft, fun _ => hTable p hp, hRight⟩

end Planner

end JoinPlanner
