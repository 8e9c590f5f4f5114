import JoinPlanner.Proofs.Planner.Explained
import JoinPlanner.Proofs.Planner.LinkedSets
import JoinPlanner.Proofs.Planner.PlanEntries

/-!
# JoinPlanner — how a run ends

Whether a run returns an order is decided by its inputs. It complains about the aliases that
are not known, or else about the components that no predicate links, or else it returns. The
search looks up tables for every side of every join that it tries, but these have all been
found known before.

* `Missing`, `Affected`    — an alias that is not known, and one that the predicates use.
* `checkKnown_eq`          — the first check lists the affected aliases.
* `checkInputs_cases`      — what both checks say.
* `KeptOrder`              — the order of the plan that is kept for all joins.
* `order_of_checks`        — with passed checks only a number can stop the run, in its search.
* `DecidedBy`              — how the inputs decide.
* `order_decided`          — the statement for all runs of finite costs.
* `named_of_parse`, `named_of_parseSubplan` — predicates that are read from names fit it.
-/

namespace JoinPlanner

open Outcome

-- ---------------------------------------------------------------------------
-- Predicates that are read
-- ---------------------------------------------------------------------------

theorem Operand.isSome_of_parse {name : String} {side : Operand}
    (h : Operand.parse name = .ok side) : side.table.isSome := by
  simp only [Operand.parse] at h
  split at h
  · cases h
  · cases h
    rfl

theorem Predicate.named_of_parse {left right : String} {operator : Outcome Comparison}
    {p : Predicate} (h : Predicate.parse left operator right = .ok p) : p.Named := by
  simp only [Predicate.parse, bind_eq_ok, pure_eq_ok] at h
  obtain ⟨l, hLeft, r, hRight, op, -, rfl⟩ := h
  exact ⟨Operand.isSome_of_parse hLeft, iff_of_true (Operand.isSome_of_parse hRight) rfl⟩

theorem Predicate.named_of_parseSubplan {left : String} {operator : Outcome Comparison}
    {subquery : Option String} {p : Predicate}
    (h : Predicate.parseSubplan left operator subquery = .ok p) : p.Named := by
  simp only [Predicate.parseSubplan, bind_eq_ok, pure_eq_ok] at h
  obtain ⟨l, hLeft, op, -, rfl⟩ := h
  exact ⟨Operand.isSome_of_parse hLeft, iff_of_false (by simp) (by simp)⟩

-- ---------------------------------------------------------------------------
-- Affected aliases
-- ---------------------------------------------------------------------------

section Aliases

variable {catalog : Catalog} {stats : Snapshot} {selectivities : Option Selectivities}
  {predicates : List Predicate} {a : String}

/-- The alias has no table, or its table no statistics, or it is left out of the selectivities. -/
inductive Missing (catalog : Catalog) (stats : Snapshot) (selectivities : Option Selectivities)
    (a : String) : Prop
  | unresolved (h : catalog.resolve (some a) = none)
  | noStatistics {id : Nat} (h : catalog.resolve (some a) = some id)
      (none : ∀ table, catalog.tables[id]? = some table → stats.get? table.name = none)
  | noSelectivity {given : Selectivities} (h : selectivities = some given)
      (none : given.get? a = none)

theorem statsOf?_eq_none_iff : catalog.statsOf? stats (some a) = none ↔
    catalog.resolve (some a) = none ∨ ∃ id, catalog.resolve (some a) = some id ∧
      ∀ table, catalog.tables[id]? = some table → stats.get? table.name = none := by
  simp only [Catalog.statsOf?, Option.bind_eq_bind]
  cases catalog.resolve (some a) with
  | none => simp
  | some id => simp [Option.bind_eq_none_iff]

theorem isKnown_eq_false_iff : isKnown catalog stats selectivities (some a) = false ↔
    Missing catalog stats selectivities a := by
  simp only [isKnown, Bool.and_eq_false_iff, Option.isSome_eq_false_iff,
    Option.isNone_iff_eq_none, statsOf?_eq_none_iff]
  constructor
  · rintro ((hAlias | ⟨id, hId, hStats⟩) | hSelectivity)
    · exact .unresolved hAlias
    · exact .noStatistics hId hStats
    · cases selectivities with
      | none => cases hSelectivity
      | some given =>
        refine .noSelectivity rfl ?_
        simpa using hSelectivity
  · rintro (hAlias | ⟨hId, hStats⟩ | ⟨rfl, hSelectivity⟩)
    · exact Or.inl (Or.inl hAlias)
    · exact Or.inl (Or.inr ⟨_, hId, hStats⟩)
    · exact Or.inr (by simpa using hSelectivity)

/-- The alias is used by the predicates, but missing. -/
def Affected (predicates : List Predicate) (catalog : Catalog) (stats : Snapshot)
    (selectivities : Option Selectivities) (a : String) : Prop :=
  some a ∈ Predicate.tablesIn predicates ∧ Missing catalog stats selectivities a

/-- The aliases are the affected ones, each once. -/
structure ListsAffected (predicates : List Predicate) (catalog : Catalog) (stats : Snapshot)
    (selectivities : Option Selectivities) (unknown : List (Option String)) : Prop where
  nodup : unknown.Nodup
  mem_iff : ∀ aliasName, aliasName ∈ unknown ↔
    ∃ a, aliasName = some a ∧ Affected predicates catalog stats selectivities a

theorem isSome_of_mem_tablesIn (hNamed : ∀ p ∈ predicates, p.Named) {table : Option String}
    (h : table ∈ Predicate.tablesIn predicates) : ∃ b, table = some b := by
  obtain ⟨p, hp, hTable⟩ := Predicate.mem_tablesIn.mp h
  have hLeft := (hNamed p hp).left
  obtain ⟨kind, left, operator, right⟩ := p
  cases kind with
  | subplan =>
    obtain rfl := List.mem_singleton.mp hTable
    exact Option.isSome_iff_exists.mp hLeft
  | table => exact Option.isSome_iff_exists.mp (List.mem_filter.mp hTable).2

/-- The aliases of named predicates can be sorted. -/
theorem sortedAliases_tablesIn (hNamed : ∀ p ∈ predicates, p.Named) :
    ∃ sorted, sortedAliases (Predicate.tablesIn predicates) = .ok sorted ∧ sorted.Nodup := by
  have hNone : (Predicate.tablesIn predicates).contains none = false := by
    rw [Bool.eq_false_iff, ne_eq, List.contains_iff_mem]
    intro h
    obtain ⟨b, hb⟩ := isSome_of_mem_tablesIn hNamed h
    cases hb
  refine ⟨_, by rw [sortedAliases, hNone]; rfl, ?_⟩
  exact (sortBy_perm _ _).nodup_iff.mpr (Predicate.nodup_tablesIn _)

/-- The check of named predicates lists the aliases that are affected. -/
theorem checkKnown_eq (catalog : Catalog) (stats : Snapshot)
    (selectivities : Option Selectivities) (hNamed : ∀ p ∈ predicates, p.Named) :
    ∃ unknown, ListsAffected predicates catalog stats selectivities unknown ∧
      checkKnown catalog stats selectivities predicates =
        .ok (if unknown = [] then .success
          else ⟨false, unknownTableReason, unknown.map .table⟩) := by
  obtain ⟨aliases, hAliases, hNodup⟩ := sortedAliases_tablesIn hNamed
  refine ⟨aliases.filter fun b => !isKnown catalog stats selectivities b,
    ⟨hNodup.filter _, fun aliasName => ?_⟩, ?_⟩
  · rw [List.mem_filter, mem_sortedAliases hAliases, Bool.not_eq_true']
    constructor
    · rintro ⟨hMem, hUnknown⟩
      obtain ⟨b, rfl⟩ := isSome_of_mem_tablesIn hNamed hMem
      exact ⟨b, rfl, hMem, isKnown_eq_false_iff.mp hUnknown⟩
    · rintro ⟨b, rfl, hMem, hMissing⟩
      exact ⟨hMem, isKnown_eq_false_iff.mpr hMissing⟩
  · simp only [checkKnown, hAliases, List.isEmpty_iff]
    show (if _ = [] then pure .success else pure _ : Outcome InputCheck) = _
    split <;> rfl

end Aliases

/-- An error names an alias if it is the only one. -/
theorem soleOffender_eq_text_iff {unknown : List (Option String)} {a : String} :
    soleOffender (unknown.map .table) = .text a ↔ unknown = [some a] := by
  match unknown with
  | [] => simp [soleOffender]
  | [none] => simp [soleOffender, Offender.value, Value.ofOption]
  | [some b] => simp [soleOffender, Offender.value, Value.ofOption]
  | _ :: _ :: _ => simp [soleOffender]

theorem ListsAffected.eq_singleton_iff {predicates : List Predicate} {catalog : Catalog}
    {stats : Snapshot} {selectivities : Option Selectivities} {unknown : List (Option String)}
    (h : ListsAffected predicates catalog stats selectivities unknown) {a : String} :
    unknown = [some a] ↔ ∀ b, Affected predicates catalog stats selectivities b ↔ b = a := by
  have hMem : ∀ b, some b ∈ unknown ↔ Affected predicates catalog stats selectivities b := by
    intro b
    rw [h.mem_iff]
    constructor
    · rintro ⟨c, hSome, hAffected⟩
      obtain rfl := Option.some.inj hSome
      exact hAffected
    · exact fun hAffected => ⟨b, rfl, hAffected⟩
  constructor
  · rintro rfl b
    rw [← hMem b, List.mem_singleton, Option.some.injEq]
  · intro hOnly
    rw [← List.perm_singleton, List.perm_ext_iff_of_nodup h.nodup (List.nodup_singleton _)]
    intro aliasName
    rw [List.mem_singleton]
    constructor
    · intro hAlias
      obtain ⟨b, rfl, hAffected⟩ := (h.mem_iff aliasName).mp hAlias
      rw [(hOnly b).mp hAffected]
    · rintro rfl
      exact (hMem a).mpr ((hOnly a).mpr rfl)

-- ---------------------------------------------------------------------------
-- The checks
-- ---------------------------------------------------------------------------

theorem PlannerError.IsNumberError.exists_number {e : PlannerError} (h : e.IsNumberError) :
    ∃ cause, e = .number cause := by
  cases e with
  | number cause => exact ⟨cause, rfl⟩
  | _ => exact h.elim

theorem mapM_members (groups : List (List String)) :
    (groups.map .group).mapM Offender.members = .ok groups := by
  induction groups with
  | nil => rfl
  | cons group rest ih =>
    rw [List.map_cons, List.mapM_cons, ih]
    rfl

namespace Planner

variable {planner : Planner} {predicates : List Predicate} {visit : Visit} {catalog : Catalog}
  {stats : Snapshot} {selectivities : Option Selectivities} {explained : Bool}

/-- The checks complain about affected aliases, or about several components, or not at all. -/
theorem checkInputs_cases (catalog : Catalog) (stats : Snapshot)
    (selectivities : Option Selectivities) (hNe : planner.joins ≠ [])
    (hNamed : ∀ p ∈ planner.joins, p.Named) :
    (∃ unknown, ListsAffected planner.joins catalog stats selectivities unknown ∧ unknown ≠ [] ∧
      planner.checkInputs catalog stats selectivities = .error (.unknownTables
        (soleOffender (unknown.map .table)) ((unknown.map .table).map Offender.display))) ∨
    ((∀ a, ¬ Affected planner.joins catalog stats selectivities a) ∧
      ∃ groups, linkedGroups planner.joins = .ok groups ∧
        ((groups.length ≠ 1 ∧
          planner.checkInputs catalog stats selectivities = .error (.noFeasiblePlan groups)) ∨
        (groups.length = 1 ∧ planner.checkInputs catalog stats selectivities = .ok ()))) := by
  obtain ⟨unknown, hUnknown, hKnown⟩ := checkKnown_eq catalog stats selectivities hNamed
  obtain ⟨groups, hGroups, hLinked⟩ :=
    checkLinked_eq hNe fun p hp => JoinGraph.hasNodes_of_named (hNamed p hp)
  rw [checkInputs, hKnown]
  by_cases hEmpty : unknown = []
  · refine Or.inr ⟨fun a hAffected => ?_, groups, hGroups, ?_⟩
    · have hMem := (hUnknown.mem_iff (some a)).mpr ⟨a, rfl, hAffected⟩
      rw [hEmpty] at hMem
      cases hMem
    · rw [if_pos hEmpty, hLinked]
      by_cases hOne : groups.length = 1
      · rw [if_pos hOne]
        exact Or.inr ⟨hOne, rfl⟩
      · refine Or.inl ⟨hOne, ?_⟩
        rw [if_neg hOne]
        show (do throw (.noFeasiblePlan (← (groups.map .group).mapM Offender.members)) :
          Outcome Unit) = _
        rw [mapM_members]
        rfl
  · refine Or.inl ⟨unknown, hUnknown, hEmpty, ?_⟩
    rw [if_neg hEmpty]
    rfl

/-- The order is that of the plan which the last run has kept for all joins. -/
def KeptOrder (planner : Planner) (found : List Predicate) : Prop :=
  ∃ plans plan, planner.last.plans = some plans ∧
    plans.get? (JoinSet.ofList planner.joins) = some plan ∧ found = plan.order

/-- With passed checks and finite costs only a number stops the run, and that in the search. -/
theorem order_of_checks (hFor : planner.IsFor predicates) (hNamed : ∀ p ∈ predicates, p.Named)
    (hVisit : ∀ l, (visit l).Perm l) (hJoins : planner.joins ≠ [])
    (hChecks : planner.checkInputs catalog stats selectivities = .ok ())
    (hFinite : ∀ plans,
      (planner.order visit catalog stats selectivities explained).1.last.plans = some plans →
        FiniteCosts (planner.setting catalog stats selectivities) planner.joins
          planner.joins.length plans) :
    (∃ found,
      (planner.order visit catalog stats selectivities explained).2.outcome = .ok found ∧
        (planner.order visit catalog stats selectivities explained).1.KeptOrder found) ∨
    ∃ cause, (planner.findPlans visit catalog stats selectivities).outcome =
        .error (.number cause) ∧
      (planner.order visit catalog stats selectivities explained).2.outcome =
        .error (.number cause) := by
  rw [order_last_plans] at hFinite
  have hFound := ensures_findPlans hFor hNamed hVisit hChecks
  cases hFind : (planner.findPlans visit catalog stats selectivities).outcome with
  | error e =>
    obtain ⟨cause, rfl⟩ := (hFound.of_eq_error hFind).exists_number
    exact Or.inr ⟨cause, rfl, order_of_error (run_of_error hJoins hFind).2⟩
  | ok plans =>
    left
    obtain ⟨hPlans, hRun⟩ := run_of_ok hJoins hFind
    have hSearched := hFound.of_eq_ok hFind
    -- all joins are linked, so they have a plan
    have hAll := (exists_plan_iff_checkLinked hSearched hFor.distinct.nodup hVisit
      (hFinite plans hPlans) (hFor.forall_joins hNamed) planner.joins hJoins fun p hp => hp).mpr
        (exists_of_checks hChecks).2
    obtain ⟨plan, hPlan⟩ := Option.isSome_iff_exists.mp hAll
    obtain ⟨scans, hScans⟩ := exists_scansOf hSearched hVisit
    obtain ⟨_, _, _, -, -, hExplain, -⟩ := exists_explain hFor hVisit hJoins hFind hPlan hScans
    refine ⟨plan.order, ?_, plans, plan, order_last_plans.trans hPlans, ?_, rfl⟩
    · rw [outcome_order, hRun, hPlan, hScans, hExplain]
      cases explained <;> rfl
    · rw [order_joins, hPlan]

theorem order_of_failed_checks (hJoins : planner.joins ≠ []) {e : PlannerError}
    (h : planner.checkInputs catalog stats selectivities = .error e) :
    (planner.order visit catalog stats selectivities explained).2.outcome = .error e := by
  refine order_of_error (run_of_error hJoins ?_).2
  rw [outcome_findPlans, h]
  rfl

-- ---------------------------------------------------------------------------
-- The decision
-- ---------------------------------------------------------------------------

/-- Affected aliases decide first, then the components; a run that passes both returns. -/
structure DecidedBy (predicates : List Predicate) (catalog : Catalog) (stats : Snapshot)
    (selectivities : Option Selectivities) (search : Outcome PlanTable) (after : Planner)
    (outcome : Outcome (List Predicate)) : Prop where
  unknown_iff : (∃ e, outcome = .error e ∧ e.failure.kind = .unknownTable) ↔
    ∃ a, Affected predicates catalog stats selectivities a
  /-- The complaint is that of the check; no look-up of the search makes one. -/
  checked : ∀ e, outcome = .error e → e.failure.kind = .unknownTable →
    ∃ sole names, e = .unknownTables sole names
  /-- It names an alias exactly if that is the only affected one. -/
  sole_iff : ∀ e, outcome = .error e → e.failure.kind = .unknownTable → ∀ a : String,
    e.failure.table = some (.text a) ↔
      ∀ b, Affected predicates catalog stats selectivities b ↔ b = a
  infeasible_iff : (∀ a, ¬ Affected predicates catalog stats selectivities a) →
    ∀ groups, IsComponents predicates groups →
      ((∃ e, outcome = .error e ∧ e.failure.kind = .noFeasiblePlan) ↔ 1 < groups.length)
  /-- The complaint lists the components. -/
  components : ∀ e, outcome = .error e → e.failure.kind = .noFeasiblePlan →
    ∃ groups, e.failure.components = some groups ∧ IsComponents predicates groups
  /-- Otherwise it returns the order of the plan of all joins, if no arithmetic fails while the
  sets are planned. -/
  returns : (∀ a, ¬ Affected predicates catalog stats selectivities a) →
    (∀ groups, IsComponents predicates groups → groups.length ≤ 1) →
      (∀ cause, search ≠ .error (.number cause)) →
        ∃ found, outcome = .ok found ∧ after.KeptOrder found

section Decisions

variable {search : Outcome PlanTable} {after : Planner} {unknown : List (Option String)}
  {groups : List (List String)}

theorem decidedBy_unknown (h : ListsAffected predicates catalog stats selectivities unknown)
    (hSome : unknown ≠ []) (names : List String) :
    DecidedBy predicates catalog stats selectivities search after
      (.error (.unknownTables (soleOffender (unknown.map .table)) names)) := by
  obtain ⟨aliasName, hAlias⟩ := List.exists_mem_of_ne_nil unknown hSome
  obtain ⟨a, -, hAffected⟩ := (h.mem_iff aliasName).mp hAlias
  refine ⟨iff_of_true ⟨_, rfl, rfl⟩ ⟨a, hAffected⟩, ?_, ?_, ?_, ?_, ?_⟩
  · intro e he _
    cases he
    exact ⟨_, _, rfl⟩
  · intro e he _ b
    cases he
    show some (soleOffender (unknown.map .table)) = some (.text b) ↔ _
    rw [Option.some.injEq, soleOffender_eq_text_iff, h.eq_singleton_iff]
  · intro hNone
    exact absurd hAffected (hNone a)
  · intro e he hKind
    cases he
    cases hKind
  · intro hNone
    exact absurd hAffected (hNone a)

theorem decidedBy_infeasible (hNone : ∀ a, ¬ Affected predicates catalog stats selectivities a)
    (hTables : ∃ p ∈ predicates, ∃ table : String, some table ∈ p.tables)
    (hGroups : IsComponents predicates groups) (hLinked : ¬ Linked predicates) :
    DecidedBy predicates catalog stats selectivities search after
      (.error (.noFeasiblePlan groups)) := by
  refine ⟨iff_of_false ?_ fun ⟨a, ha⟩ => hNone a ha, ?_, ?_, ?_, ?_, ?_⟩
  · rintro ⟨e, he, hKind⟩
    cases he
    cases hKind
  · intro e he hKind
    cases he
    cases hKind
  · intro e he hKind
    cases he
    cases hKind
  · intro _ others hOthers
    exact iff_of_true ⟨_, rfl, rfl⟩ ((hOthers.one_lt_length_iff hTables).mpr hLinked)
  · -- the error shows the tables of each group in order
    intro e he _
    cases he
    refine ⟨groups.map Text.distinct, rfl, hGroups.map fun group a => ?_⟩
    rw [Text.distinct, Text.sorted, mem_sortBy, List.mem_eraseDups]
  · intro _ hFew
    have hLe := hFew groups hGroups
    have hLt := (hGroups.one_lt_length_iff hTables).mpr hLinked
    omega

theorem decidedBy_end (hNone : ∀ a, ¬ Affected predicates catalog stats selectivities a)
    (hTables : ∃ p ∈ predicates, ∃ table : String, some table ∈ p.tables)
    (hLinked : Linked predicates) {outcome : Outcome (List Predicate)}
    (hEnd : (∃ found, outcome = .ok found ∧ after.KeptOrder found) ∨
      ∃ cause, search = .error (.number cause) ∧ outcome = .error (.number cause)) :
    DecidedBy predicates catalog stats selectivities search after outcome := by
  have hNot : ∀ e, outcome = .error e →
      e.failure.kind ≠ .unknownTable ∧ e.failure.kind ≠ .noFeasiblePlan := by
    intro e he
    rcases hEnd with ⟨found, hOk, -⟩ | ⟨cause, -, hError⟩
    · cases hOk.symm.trans he
    · obtain rfl := Except.error.inj (hError.symm.trans he)
      cases cause <;> exact ⟨by decide, by decide⟩
  refine ⟨iff_of_false ?_ fun ⟨a, ha⟩ => hNone a ha, ?_, ?_, ?_, ?_, fun _ _ hSearch => ?_⟩
  · rintro ⟨e, he, hKind⟩
    exact (hNot e he).1 hKind
  · exact fun e he hKind => absurd hKind (hNot e he).1
  · exact fun e he hKind => absurd hKind (hNot e he).1
  · intro _ others hOthers
    refine iff_of_false ?_ fun hLt => (hOthers.one_lt_length_iff hTables).mp hLt hLinked
    rintro ⟨e, he, hKind⟩
    exact (hNot e he).2 hKind
  · exact fun e he hKind => absurd hKind (hNot e he).2
  · rcases hEnd with hFound | ⟨cause, hError, -⟩
    · exact hFound
    · exact absurd hError (hSearch cause)

end Decisions

theorem IsFor.mem_tablesIn_iff (h : planner.IsFor predicates) {table : Option String} :
    table ∈ Predicate.tablesIn planner.joins ↔ table ∈ Predicate.tablesIn predicates := by
  rw [Predicate.mem_tablesIn, Predicate.mem_tablesIn]
  constructor
  · rintro ⟨p, hp, hTable⟩
    exact ⟨p, h.collects.subset p hp, hTable⟩
  · rintro ⟨p, hp, hTable⟩
    obtain ⟨q, hq, hSame⟩ := h.collects.cover p hp
    exact ⟨q, hq, hSame.mem_tables_iff.mp hTable⟩

theorem IsFor.affected_iff (h : planner.IsFor predicates) {a : String} :
    Affected planner.joins catalog stats selectivities a ↔
      Affected predicates catalog stats selectivities a :=
  and_congr_left fun _ => h.mem_tablesIn_iff

theorem IsFor.listsAffected (h : planner.IsFor predicates) {unknown : List (Option String)}
    (hUnknown : ListsAffected planner.joins catalog stats selectivities unknown) :
    ListsAffected predicates catalog stats selectivities unknown := by
  refine ⟨hUnknown.nodup, fun aliasName => (hUnknown.mem_iff aliasName).trans ?_⟩
  exact exists_congr fun a => and_congr_right fun _ => h.affected_iff

/-- The joins of a planner have the components of its predicates. -/
theorem IsFor.isComponents (h : planner.IsFor predicates) {groups : List (List String)}
    (hGroups : IsComponents planner.joins groups) : IsComponents predicates groups := by
  have hSome : ∀ p ∈ planner.joins, ∃ q ∈ predicates, q.SameJoin p :=
    fun p hp => ⟨p, h.collects.subset p hp, Predicate.SameJoin.refl p⟩
  have hAll : ∀ q ∈ predicates, ∃ p ∈ planner.joins, p.SameJoin q := by
    intro q hq
    obtain ⟨p, hp, hSame⟩ := h.collects.cover q hq
    exact ⟨p, hp, hSame.symm⟩
  exact hGroups.congr hSome hAll

/--
The outcome of a run is decided by its inputs, if all costs are finite. The predicates are
such as are read from names; arithmetic may stop the search of a run that would return. What
is returned otherwise is the order of the plan that the run has kept for all joins.
-/
theorem order_decided (hFor : planner.IsFor predicates) (hNe : predicates ≠ [])
    (hNamed : ∀ p ∈ predicates, p.Named) (hVisit : ∀ l, (visit l).Perm l)
    (hFinite : ∀ plans,
      (planner.order visit catalog stats selectivities explained).1.last.plans = some plans →
        FiniteCosts (planner.setting catalog stats selectivities) planner.joins
          planner.joins.length plans) :
    DecidedBy predicates catalog stats selectivities
      (planner.findPlans visit catalog stats selectivities).outcome
      (planner.order visit catalog stats selectivities explained).1
      (planner.order visit catalog stats selectivities explained).2.outcome := by
  obtain ⟨p, hp⟩ := List.exists_mem_of_ne_nil predicates hNe
  obtain ⟨q, hq, -⟩ := hFor.collects.cover p hp
  have hJoins : planner.joins ≠ [] := List.ne_nil_of_mem hq
  have hTables : ∃ p ∈ predicates, ∃ table : String, some table ∈ p.tables :=
    ⟨p, hp, (hNamed p hp).exists_table⟩
  rcases checkInputs_cases catalog stats selectivities hJoins (hFor.forall_joins hNamed) with
    ⟨unknown, hUnknown, hSome, hChecks⟩ | ⟨hNone, groups, hGroups, hCases⟩
  · rw [order_of_failed_checks hJoins hChecks]
    exact decidedBy_unknown (hFor.listsAffected hUnknown) hSome _
  · have hNone' : ∀ a, ¬ Affected predicates catalog stats selectivities a :=
      fun a ha => hNone a (hFor.affected_iff.mpr ha)
    have hComponents := hFor.isComponents (isComponents_linkedGroups hGroups)
    have hLinked := hComponents.length_eq_one_iff hTables
    rcases hCases with ⟨hSeveral, hChecks⟩ | ⟨hOne, hChecks⟩
    · rw [order_of_failed_checks hJoins hChecks]
      exact decidedBy_infeasible hNone' hTables hComponents fun h => hSeveral (hLinked.mpr h)
    · exact decidedBy_end hNone' hTables (hLinked.mp hOne)
        (order_of_checks hFor hNamed hVisit hJoins hChecks hFinite)

/-- A join with a table that the sample does not have. -/
def strangeJoins : List Predicate := [sampleJoin "A" "id" "X" "id"]

theorem affected_strangeJoins_iff {a : String} :
    Affected strangeJoins sampleCatalog sampleStats none a ↔ a = "X" := by
  have hTables : Predicate.tablesIn strangeJoins = [some "A", some "X"] := by decide +kernel
  have hKnown : isKnown sampleCatalog sampleStats none (some "A") = true := by decide +kernel
  have hUnknown : isKnown sampleCatalog sampleStats none (some "X") = false := by decide +kernel
  rw [Affected, hTables]
  constructor
  · rintro ⟨hMem, hMissing⟩
    rcases List.mem_cons.mp hMem with hFirst | hSecond
    · obtain rfl := Option.some.inj hFirst
      rw [← isKnown_eq_false_iff, hKnown] at hMissing
      cases hMissing
    · exact Option.some.inj (List.mem_singleton.mp hSecond)
  · rintro rfl
    exact ⟨by simp, isKnown_eq_false_iff.mp hUnknown⟩

/-- The statement at a run that returns, and at one that names the only missing alias. -/
theorem order_decided_samples :
    (∃ found,
      ((samplePlanner parallelJoins).order List.reverse sampleCatalog sampleStats none
        false).2.outcome = .ok found ∧
      DecidedBy parallelJoins sampleCatalog sampleStats none
        ((samplePlanner parallelJoins).findPlans List.reverse sampleCatalog sampleStats
          none).outcome
        ((samplePlanner parallelJoins).order List.reverse sampleCatalog sampleStats none
          false).1 (.ok found)) ∧
    ∃ e, ((samplePlanner strangeJoins).order List.reverse sampleCatalog sampleStats none
        true).2.outcome = .error e ∧
      e.failure.kind = .unknownTable ∧ e.failure.table = some (.text "X") := by
  constructor
  · obtain ⟨found, plans, hOrder, hPlans, -, hFinite⟩ := exists_parallel_run
    refine ⟨found, hOrder, ?_⟩
    rw [← hOrder]
    refine order_decided (isFor_samplePlanner parallelJoins) (by decide) (by decide +kernel)
      (fun l => l.reverse_perm) fun plans' hPlans' => ?_
    obtain rfl := Option.some.inj (hPlans.symm.trans hPlans')
    exact hFinite
  · have hPlans : ((samplePlanner strangeJoins).order List.reverse sampleCatalog sampleStats none
        true).1.last.plans.isNone = true := by decide +kernel
    have hDecided : DecidedBy strangeJoins sampleCatalog sampleStats none
        ((samplePlanner strangeJoins).findPlans List.reverse sampleCatalog sampleStats
          none).outcome
        ((samplePlanner strangeJoins).order List.reverse sampleCatalog sampleStats none true).1
        ((samplePlanner strangeJoins).order List.reverse sampleCatalog sampleStats none
          true).2.outcome := by
      refine order_decided (isFor_samplePlanner strangeJoins) (by decide) (by decide +kernel)
        (fun l => l.reverse_perm) fun plans hSome => ?_
      rw [hSome] at hPlans
      cases hPlans
    obtain ⟨e, hError, hKind⟩ :=
      hDecided.unknown_iff.mpr ⟨"X", affected_strangeJoins_iff.mpr rfl⟩
    exact ⟨e, hError, hKind,
      (hDecided.sole_iff e hError hKind "X").mpr fun _ => affected_strangeJoins_iff⟩

end Planner

end JoinPlanner
