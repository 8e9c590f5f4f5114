import JoinPlanner.Proofs.Search.Extension

/-!
# JoinPlanner — joins of known tables

If all tables of the joins have statistics and selectivities, extending a plan fails in
no other way than by a number that leaves its range.

* `Setting.Known`     — the alias has statistics and a selectivity.
* `Setting.KnownJoin` — all sides of a join are known, in either orientation.
* `ensures_scanOf`, `exists_hasKey`, `ensures_joinCardinality` — what is read of them.
* `hasKey_append`, `hasKey_eq_false_iff`, `hasKey_eq_true_iff` — the keys of an order, join by
  join: the first one that is a key or cannot be looked up decides.
* `ensures_extendBelow`, `ensures_extend` — the extension of a plan.
-/

namespace JoinPlanner

open Outcome PlannerError

namespace Setting

variable {s : Setting}

-- ---------------------------------------------------------------------------
-- Tables
-- ---------------------------------------------------------------------------

/-- The alias stands for a table with statistics, and it has a selectivity. -/
structure Known (s : Setting) (aliasName : Option String) : Prop where
  stats : ∃ stats, s.statsOf aliasName = .ok stats
  selectivity : ∃ q, aliasName.bind s.selectivities.get? = some q

theorem ensures_scanOf {aliasName : Option String} (h : s.Known aliasName) :
    (s.scanOf aliasName).Ensures IsNumberError fun _ => True := by
  obtain ⟨stats, hStats⟩ := h.stats
  obtain ⟨q, hSelectivity⟩ := h.selectivity
  simp only [scanOf, hSelectivity, hStats, liftM_number]
  refine ensures_bind (P := fun _ => True) (.ok trivial) fun stats _ _ => ?_
  refine ensures_bind (ensures_ofNumber fun _ _ => trivial) fun cost _ _ => ?_
  exact ensures_bind (ensures_ofNumber fun _ _ => trivial) fun card _ _ => .ok trivial

/-- The table behind the alias can be looked up. -/
theorem Known.exists_table {a : String} (h : s.Known (some a)) :
    ∃ id table, s.catalog.resolve (some a) = some id ∧ s.catalog.table id = .ok table := by
  obtain ⟨stats, hStats⟩ := h.stats
  rw [statsOf] at hStats
  split at hStats
  · cases hStats
  · rename_i id hResolve
    obtain ⟨table, hTable, -⟩ := bind_eq_ok.mp hStats
    exact ⟨id, table, hResolve, hTable⟩

/-- Whether a side is a key is known if its table is known or absent. -/
theorem exists_isKey {side : Operand} (h : side.table = none ∨ s.Known side.table) :
    ∃ key, s.isKey side = .ok key := by
  obtain ⟨table, column⟩ := side
  cases table with
  | none => exact ⟨false, rfl⟩
  | some a =>
    cases column with
    | none => exact ⟨false, rfl⟩
    | some column =>
      have hKnown : s.Known (some a) := h.resolve_left (by simp)
      obtain ⟨id, table, hResolve, hTable⟩ := hKnown.exists_table
      refine ⟨table.primaryKey == column, ?_⟩
      simp only [isKey, hResolve, hTable]
      rfl

-- ---------------------------------------------------------------------------
-- Joins
-- ---------------------------------------------------------------------------

/-- The tables of a join are known; a subquery has no table. -/
structure KnownJoin (s : Setting) (p : Predicate) : Prop where
  left : s.Known p.left.table
  right : p.isSubplan = false → s.Known p.right.table
  subquery : p.isSubplan = true → p.right.table = none

theorem knownJoin_of_named {p : Predicate} (hNamed : p.Named)
    (hTables : ∀ table ∈ p.tables, s.Known table) : s.KnownJoin p := by
  obtain ⟨kind, left, operator, right⟩ := p
  have hLeft : left.table.isSome := hNamed.left
  have hRight : right.table.isSome ↔ kind = .table := hNamed.right
  cases kind with
  | subplan =>
    refine ⟨hTables _ (List.mem_singleton_self _), fun h => (by cases h), fun _ => ?_⟩
    have hNot : ¬ right.table.isSome := fun h => by cases hRight.mp h
    simpa using hNot
  | table =>
    refine ⟨hTables _ ?_, fun _ => hTables _ ?_, fun h => (by cases h)⟩
    · simp [Predicate.tables, hLeft]
    · simp [Predicate.tables, hRight]

theorem KnownJoin.of_sameJoin {p q : Predicate} (h : s.KnownJoin p) (hSame : q.SameJoin p) :
    s.KnownJoin q := by
  rcases hSame with rfl | rfl
  · exact h
  · obtain ⟨kind, left, operator, right⟩ := p
    cases kind with
    | subplan => exact h
    | table => exact ⟨h.right rfl, fun _ => h.left, fun hKind => by cases hKind⟩

theorem KnownJoin.right_side {p : Predicate} (h : s.KnownJoin p) :
    p.right.table = none ∨ s.Known p.right.table := by
  cases hKind : p.isSubplan with
  | true => exact Or.inl (h.subquery hKind)
  | false => exact Or.inr (h.right hKind)

theorem exists_hasKey {order : List Predicate} (h : ∀ q ∈ order, s.KnownJoin q) :
    ∃ key, s.hasKey order = .ok key := by
  induction order with
  | nil => exact ⟨false, rfl⟩
  | cons p rest ih =>
    have hp := h p List.mem_cons_self
    obtain ⟨leftKey, hLeft⟩ := exists_isKey (Or.inr hp.left)
    obtain ⟨rightKey, hRight⟩ := exists_isKey hp.right_side
    obtain ⟨restKey, hRest⟩ := ih fun q hq => h q (List.mem_cons_of_mem _ hq)
    refine ⟨leftKey || (rightKey || restKey), ?_⟩
    rw [hasKey, hLeft, hRight, hRest]
    cases leftKey <;> cases rightKey <;> rfl

/-- Whether a key takes part does not depend on the orientations, if it is known of all sides. -/
theorem hasKey_eq_of_sameJoins {order given : List Predicate}
    (hSame : List.Forall₂ Predicate.SameJoin order given)
    (hSides : ∀ p ∈ given, p.isSubplan = false →
      (∃ key, s.isKey p.left = .ok key) ∧ ∃ key, s.isKey p.right = .ok key) :
    s.hasKey order = s.hasKey given := by
  induction hSame with
  | nil => rfl
  | @cons q p order given hJoin _ ih =>
    have hRest := ih fun r hr => hSides r (List.mem_cons_of_mem p hr)
    rcases hJoin with rfl | rfl
    · rw [hasKey, hasKey, hRest]
    · obtain ⟨kind, left, operator, right⟩ := p
      cases kind with
      | subplan =>
        rw [hasKey, hasKey, hRest]
        rfl
      | table =>
        obtain ⟨⟨leftKey, hLeft⟩, ⟨rightKey, hRight⟩⟩ := hSides _ List.mem_cons_self rfl
        simp only [hasKey, Predicate.flipped, hRest] at hLeft hRight ⊢
        rw [hLeft, hRight]
        cases leftKey <;> cases rightKey <;> rfl

/-- The first join decides, if it has a key or cannot be looked up. -/
theorem hasKey_cons (p : Predicate) (rest : List Predicate) :
    s.hasKey (p :: rest) = s.hasKey [p] >>= fun key => if key then .ok true else s.hasKey rest := by
  simp only [hasKey]
  cases s.isKey p.left with
  | error e => rfl
  | ok left =>
    cases left with
    | true => rfl
    | false =>
      cases s.isKey p.right with
      | error e => rfl
      | ok right => cases right <;> rfl

theorem hasKey_append (order rest : List Predicate) :
    s.hasKey (order ++ rest) =
      s.hasKey order >>= fun key => if key then .ok true else s.hasKey rest := by
  induction order with
  | nil => rfl
  | cons p order ih =>
    rw [List.cons_append, hasKey_cons, hasKey_cons p order, bind_assoc, ih]
    refine bind_congr fun key => ?_
    cases key <;> rfl

/-- An order has no key if none of its joins has one. -/
theorem hasKey_eq_false_iff {order : List Predicate} :
    s.hasKey order = .ok false ↔ ∀ q ∈ order, s.hasKey [q] = .ok false := by
  induction order with
  | nil => exact iff_of_true rfl (by simp)
  | cons p rest ih =>
    rw [hasKey_cons, bind_eq_ok, List.forall_mem_cons, ← ih]
    constructor
    · rintro ⟨key, hFirst, hRest⟩
      cases key with
      | true => cases hRest
      | false => exact ⟨hFirst, hRest⟩
    · rintro ⟨hFirst, hRest⟩
      exact ⟨false, hFirst, hRest⟩

/-- If an order can be looked up, it has a key exactly if one of its joins has one. -/
theorem hasKey_eq_true_iff {order : List Predicate} {key : Bool} (h : s.hasKey order = .ok key) :
    key = true ↔ ∃ q ∈ order, s.hasKey [q] = .ok true := by
  induction order with
  | nil =>
    cases h
    simp
  | cons p rest ih =>
    rw [hasKey_cons, bind_eq_ok] at h
    obtain ⟨first, hFirst, hRest⟩ := h
    rw [List.exists_mem_cons_iff, hFirst]
    cases first with
    | true =>
      cases hRest
      simp
    | false => simpa using ih hRest

theorem ensures_joinCardinality {p : Predicate}
    (h : p.isSubplan = false → s.Known p.left.table ∧ s.Known p.right.table)
    (leftCard rightCard : Cardinality) (leftKey rightKey : Bool) :
    (s.joinCardinality p leftCard rightCard leftKey rightKey).Ensures IsNumberError
      fun _ => True := by
  rw [joinCardinality]
  split
  · exact .ok trivial
  · rename_i hKind
    obtain ⟨hLeftKnown, hRightKnown⟩ := h (Bool.eq_false_iff.mpr hKind)
    obtain ⟨left, hLeft⟩ := hLeftKnown.stats
    obtain ⟨right, hRight⟩ := hRightKnown.stats
    simp only [hLeft, hRight, liftM_number]
    refine ensures_bind (P := fun _ => True) (.ok trivial) fun left _ _ => ?_
    refine ensures_bind (P := fun _ => True) (.ok trivial) fun right _ _ => ?_
    exact ensures_ofNumber fun _ _ => trivial

-- ---------------------------------------------------------------------------
-- Extensions
-- ---------------------------------------------------------------------------

theorem ensures_scanInput {side : Operand} (h : s.Known side.table) :
    (s.scanInput side).Ensures IsNumberError fun _ => True := by
  refine ensures_bind (ensures_scanOf h) fun estimate _ _ => ?_
  obtain ⟨key, hKey⟩ := exists_isKey (Or.inr h)
  rw [hKey]
  exact .ok trivial

theorem ensures_innerInput {p : Predicate} (h : s.KnownJoin p) :
    (s.innerInput p).Ensures IsNumberError fun _ => True := by
  rw [innerInput]
  split
  · exact .ok trivial
  · rename_i hKind
    exact ensures_scanInput (h.right (Bool.eq_false_iff.mpr hKind))

theorem ensures_planInput {plan : Plan} (h : ∀ q ∈ plan.order, s.KnownJoin q) :
    (s.planInput plan).Ensures IsNumberError fun _ => True := by
  obtain ⟨key, hKey⟩ := exists_hasKey h
  rw [planInput, hKey]
  exact .ok trivial

theorem ensures_inputs? {previous : Option Plan} {p : Predicate}
    (hPrevious : ∀ q ∈ orderOf previous, s.KnownJoin q) (h : s.KnownJoin p) :
    (s.inputs? previous p).Ensures IsNumberError fun _ => True := by
  cases previous with
  | none =>
    refine ensures_bind (ensures_scanInput h.left) fun left _ _ => ?_
    exact ensures_bind (ensures_innerInput h) fun right _ _ => .ok trivial
  | some plan =>
    rw [inputs?]
    split
    · refine ensures_bind (ensures_planInput hPrevious) fun left _ _ => ?_
      exact ensures_bind (ensures_innerInput h) fun right _ _ => .ok trivial
    · split
      · refine ensures_bind (ensures_planInput hPrevious) fun right _ _ => ?_
        exact ensures_bind (ensures_scanInput h.left) fun left _ _ => .ok trivial
      · exact .ok trivial

theorem ensures_complete {previous : Option Plan} {o : Oriented} (h : s.KnownJoin o.join) :
    (s.complete previous o).Ensures IsNumberError fun _ => True :=
  ensures_bind (ensures_joinCardinality (fun hKind => ⟨h.left, h.right hKind⟩) _ _ _ _)
    fun _ _ _ => .ok trivial

theorem ensures_extendBelow {bound : Cost} {previous : Option Plan} {p : Predicate}
    (hPrevious : ∀ q ∈ orderOf previous, s.KnownJoin q) (h : s.KnownJoin p) :
    (s.extendBelow bound previous p).Ensures IsNumberError fun _ => True := by
  refine ensures_bind (ensures_inputs? hPrevious h) fun found _ _ => ?_
  cases found with
  | none => exact .ok trivial
  | some pair =>
    refine ensures_bind (ensures_ofNumber (P := fun o => o.join.SameJoin p)
      fun o hOrient => sameJoin_of_orient hOrient) fun o _ hSame => ?_
    split
    · exact .ok trivial
    · exact ensures_bind (ensures_complete (h.of_sameJoin hSame)) fun _ _ _ => .ok trivial

theorem ensures_extend {previous : Option Plan} {p : Predicate}
    (hPrevious : ∀ q ∈ orderOf previous, s.KnownJoin q) (h : s.KnownJoin p) :
    (s.extend previous p).Ensures IsNumberError fun _ => True := by
  refine ensures_bind (ensures_inputs? hPrevious h) fun found _ _ => ?_
  cases found with
  | none => exact .ok trivial
  | some pair =>
    refine ensures_bind (ensures_ofNumber (P := fun o => o.join.SameJoin p)
      fun o hOrient => sameJoin_of_orient hOrient) fun o _ hSame => ?_
    exact ensures_bind (ensures_complete (h.of_sameJoin hSame)) fun _ _ _ => .ok trivial

end Setting

end JoinPlanner
