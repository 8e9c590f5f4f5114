import JoinPlanner.Proofs.Search.Cells

/-!
# JoinPlanner — level by level

The search adds the plans of all sets of one size, given those of the sets with one join
less. Each level finishes the table up to its size.

* `LevelOf`         — the plans of some sets, given those of smaller ones.
* `LevelOf.get?_eq` — looking up one of these sets answers what its search answers.
* `FoundUpTo`       — what the search has found after a level.
* `ensures_addLevel`, `ensures_search_of_bestPlan` — a level keeps the invariant, so the
  result of a search is a finished table. A search fails only where that of a set fails,
* `ensures_search`  — and that only where the extension of a plan fails.
-/

namespace JoinPlanner

open Outcome

namespace Setting

variable {s : Setting} {visit : Visit} {known : JoinSet → Option Plan}
  {lists : List (List Predicate)} {level : List (JoinSet × Plan)} {E : PlannerError → Prop}

-- ---------------------------------------------------------------------------
-- One level
-- ---------------------------------------------------------------------------

/-- The plans of those of some sets that have one. -/
structure LevelOf (s : Setting) (visit : Visit) (known : JoinSet → Option Plan)
    (lists : List (List Predicate)) (level : List (JoinSet × Plan)) : Prop where
  total : ∀ members ∈ lists, ∃ best, s.bestPlan visit known ⟨members⟩ = .ok best
  mem_iff : ∀ set plan, (set, plan) ∈ level ↔
    set.members ∈ lists ∧ s.bestPlan visit known set = .ok (some plan)

theorem LevelOf.cons {members : List Predicate} {best : Option Plan}
    (h : s.LevelOf visit known lists level)
    (hBest : s.bestPlan visit known ⟨members⟩ = .ok best) :
    s.LevelOf visit known (members :: lists)
      (match best with
        | none => level
        | some plan => (⟨members⟩, plan) :: level) := by
  refine ⟨?_, fun set plan => ?_⟩
  · intro other hOther
    rcases List.mem_cons.mp hOther with rfl | hOther
    · exact ⟨best, hBest⟩
    · exact h.total other hOther
  · -- the set is the new one or was there before
    have hNew : set.members = members → s.bestPlan visit known set = .ok best := by
      rintro rfl
      exact hBest
    cases best with
    | none =>
      rw [h.mem_iff, List.mem_cons]
      constructor
      · rintro ⟨hMem, hPlan⟩
        exact ⟨Or.inr hMem, hPlan⟩
      · rintro ⟨hSame | hMem, hPlan⟩
        · cases (hNew hSame).symm.trans hPlan
        · exact ⟨hMem, hPlan⟩
    | some plan' =>
      rw [List.mem_cons, List.mem_cons, h.mem_iff]
      constructor
      · rintro (hSame | ⟨hMem, hPlan⟩)
        · cases hSame
          exact ⟨Or.inl rfl, hBest⟩
        · exact ⟨Or.inr hMem, hPlan⟩
      · rintro ⟨hSame | hMem, hPlan⟩
        · obtain rfl : plan' = plan :=
            Option.some.inj (Except.ok.inj ((hNew hSame).symm.trans hPlan))
          subst hSame
          exact Or.inl rfl
        · exact Or.inr ⟨hMem, hPlan⟩

theorem ensures_plansOf
    (h : ∀ members ∈ lists, (s.bestPlan visit known ⟨members⟩).Ensures E fun _ => True) :
    (s.plansOf visit known lists).Ensures E (s.LevelOf visit known lists) := by
  induction lists with
  | nil =>
    refine .ok ⟨fun members hMem => ?_, fun set plan => ?_⟩
    · cases hMem
    · simp
  | cons members rest ih =>
    have hRest := ih fun other hOther => h other (List.mem_cons_of_mem _ hOther)
    rw [plansOf]
    refine ensures_bind (h members List.mem_cons_self) fun best hBest _ => ?_
    cases best with
    | none => exact hRest.mono fun level _ hLevel => hLevel.cons hBest
    | some plan =>
      exact ensures_bind hRest fun level _ hLevel => .ok (hLevel.cons hBest)

/--
If the sets are told apart by their members, whatever looks up the entries of a level
finds the plan that the search of the set has found.
-/
theorem LevelOf.eq_of_lookup (h : s.LevelOf visit known lists level) {members : List Predicate}
    (hMem : members ∈ lists)
    (hApart : ∀ other ∈ lists, (∀ p, p ∈ other ↔ p ∈ members) → other = members)
    {found : Option Plan}
    (hSome : ∀ plan, found = some plan →
      ∃ set, (set, plan) ∈ level ∧ ∀ p, p ∈ set.members ↔ p ∈ members)
    (hNone : found = none → ∀ e ∈ level, ¬ ∀ p, p ∈ e.1.members ↔ p ∈ members) :
    s.bestPlan visit known ⟨members⟩ = .ok found := by
  cases found with
  | some plan =>
    obtain ⟨set, hLevel, hSame⟩ := hSome plan rfl
    obtain ⟨hSet, hPlan⟩ := (h.mem_iff set plan).mp hLevel
    obtain rfl := hApart set.members hSet hSame
    exact hPlan
  | none =>
    obtain ⟨best, hBest⟩ := h.total members hMem
    cases best with
    | none => exact hBest
    | some plan =>
      have hLevel := (h.mem_iff ⟨members⟩ plan).mpr ⟨hMem, hBest⟩
      exact absurd (fun p => Iff.rfl) (hNone rfl _ hLevel)

theorem LevelOf.get?_eq (h : s.LevelOf visit known lists level) {members : List Predicate}
    (hMem : members ∈ lists)
    (hApart : ∀ other ∈ lists, (∀ p, p ∈ other ↔ p ∈ members) → other = members) :
    s.bestPlan visit known ⟨members⟩ = .ok (Association.get? level ⟨members⟩) := by
  refine h.eq_of_lookup hMem hApart (fun plan hPlan => ?_) fun hNone e he hSame => ?_
  · obtain ⟨set, hLevel, hSame⟩ := Association.exists_mem_of_get? hPlan
    exact ⟨set, hLevel, JoinSet.beq_iff.mp hSame⟩
  · have hNot := Association.get?_eq_none_iff.mp hNone e he
    rw [JoinSet.beq_iff.mpr hSame] at hNot
    cases hNot

theorem LevelOf.get?_ofPlans_eq (h : s.LevelOf visit known lists level)
    {joins members : List Predicate} (hLists : ∀ other ∈ lists, ∀ p ∈ other, p ∈ joins)
    (hMem : members ∈ lists)
    (hApart : ∀ other ∈ lists, (∀ p, p ∈ other ↔ p ∈ members) → other = members) :
    s.bestPlan visit known ⟨members⟩ =
      .ok ((ChoiceTree.ofPlans joins level).get? (choiceOf joins ⟨members⟩)) := by
  have hMembers : ∀ p ∈ members, p ∈ joins := hLists members hMem
  refine h.eq_of_lookup hMem hApart (fun plan hPlan => ?_) fun hNone e he hSame => ?_
  · obtain ⟨set, hLevel, hChoice⟩ := ChoiceTree.exists_mem_of_get? hPlan
    have hSet := hLists set.members ((h.mem_iff set plan).mp hLevel).1
    exact ⟨set, hLevel, JoinSet.beq_iff.mp ((choiceOf_eq hSet hMembers).mp hChoice)⟩
  · have hNot := ChoiceTree.get?_eq_none_iff.mp hNone e he
    exact hNot (choiceOf_eq_iff.mpr fun p _ => hSame p)

end Setting

-- ---------------------------------------------------------------------------
-- All levels
-- ---------------------------------------------------------------------------

/-- What the search has found after the level of some size. -/
structure FoundUpTo (s : Setting) (visit : Visit) (joins : List Predicate) (size : Nat)
    (found : Found) : Prop where
  searched : Searched s visit joins size found.plans
  /-- The tree answers for the sets of the last size. -/
  last : ∀ members, Within joins size members → members.length = size →
    found.last.get? (choiceOf joins ⟨members⟩) = found.plans.get? ⟨members⟩

namespace FoundUpTo

variable {s : Setting} {visit : Visit} {joins : List Predicate} {size : Nat} {found : Found}
  {level : List (JoinSet × Plan)} {E : PlannerError → Prop}

theorem start : FoundUpTo s visit joins 0 ⟨.empty, .empty⟩ := by
  have hNone : ∀ members, ¬ Within joins 0 members := by
    intro members hWithin
    exact hWithin.nonempty (List.length_eq_zero_iff.mp (Nat.le_zero.mp hWithin.length_le))
  refine ⟨⟨?_, ?_, ?_⟩, ?_⟩
  · intro e he
    cases he
  · intro e he
    cases he
  · intro members hWithin
    exact absurd hWithin (hNone members)
  · intro members hWithin
    exact absurd hWithin (hNone members)

/-- The plans of the sets of the last size. -/
abbrev lastOf (joins : List Predicate) (found : Found) (set : JoinSet) : Option Plan :=
  found.last.get? (choiceOf joins set)

/-- Plans of larger sets do not change those of smaller ones. -/
theorem get?_append_old (hNodup : joins.Nodup)
    (hLarger : ∀ e ∈ level, e.1.members ∈ subsetsOf (size + 1) joins)
    {members : List Predicate} (hWithin : Within joins size members) :
    (found.plans.append level).get? ⟨members⟩ = found.plans.get? ⟨members⟩ := by
  have hNone : Association.get? level ⟨members⟩ = none := by
    rw [Association.get?_eq_none_iff]
    intro e he
    refine Bool.eq_false_iff.mpr fun hSame => ?_
    obtain ⟨hSublist, hLength⟩ := mem_subsetsOf.mp (hLarger e he)
    rw [eq_of_sublist hNodup hSublist hWithin.sublist (JoinSet.beq_iff.mp hSame)] at hLength
    have hLe := hWithin.length_le
    omega
  rw [PlanTable.get?_append, hNone, Option.or_none]

/-- The plans of the sets of the new size are those of the new level. -/
theorem get?_append_new (h : FoundUpTo s visit joins size found) (hNodup : joins.Nodup)
    {members : List Predicate} (hSublist : members.Sublist joins)
    (hLength : members.length = size + 1) :
    (found.plans.append level).get? ⟨members⟩ = Association.get? level ⟨members⟩ := by
  have hNone : found.plans.get? ⟨members⟩ = none := by
    refine Association.get?_eq_none_iff.mpr fun e he => ?_
    refine Bool.eq_false_iff.mpr fun hSame => ?_
    have hWithin := h.searched.sets e he
    have hLe := hWithin.length_le
    rw [eq_of_sublist hNodup hWithin.sublist hSublist (JoinSet.beq_iff.mp hSame)] at hLe
    omega
  rw [PlanTable.get?_append, hNone, Option.none_or]

/-- The joins of a new set extend the same plans with and without those of the new sets. -/
theorem previousOf?_append (hNodup : joins.Nodup)
    (hLarger : ∀ e ∈ level, e.1.members ∈ subsetsOf (size + 1) joins)
    {members : List Predicate} (hWithin : Within joins (size + 1) members) {p : Predicate}
    (hp : p ∈ members) :
    Setting.previousOf? found.plans.get? ⟨members⟩ p =
      Setting.previousOf? (found.plans.append level).get? ⟨members⟩ p := by
  have hMembers := hWithin.nodup hNodup
  rw [Setting.previousOf?_eq hMembers, Setting.previousOf?_eq hMembers]
  by_cases hRest : members.erase p = []
  · rw [if_pos hRest, if_pos hRest]
  · rw [if_neg hRest, if_neg hRest, get?_append_old hNodup hLarger (hWithin.erase hp hRest)]

/-- The joins of a set of the new size extend plans of the last size. -/
theorem previousOf?_last (h : FoundUpTo s visit joins size found) (hNodup : joins.Nodup)
    {members : List Predicate} (hWithin : Within joins (size + 1) members)
    (hLength : members.length = size + 1) {p : Predicate} (hp : p ∈ members) :
    Setting.previousOf? (lastOf joins found) ⟨members⟩ p =
      Setting.previousOf? found.plans.get? ⟨members⟩ p := by
  have hMembers := hWithin.nodup hNodup
  rw [Setting.previousOf?_eq hMembers, Setting.previousOf?_eq hMembers]
  by_cases hRest : members.erase p = []
  · rw [if_pos hRest, if_pos hRest]
  · have hErase : (members.erase p).length = size := by
      rw [List.length_erase_of_mem hp, hLength]
      rfl
    rw [if_neg hRest, if_neg hRest, lastOf, h.last _ (hWithin.erase hp hRest) hErase]

/-- The sets of the new size are found in the new level. -/
theorem bestPlan_new (h : FoundUpTo s visit joins size found) (hNodup : joins.Nodup)
    (hLevel : s.LevelOf visit (lastOf joins found) (subsetsOf (size + 1) joins) level)
    {members : List Predicate} (hSublist : members.Sublist joins)
    (hLength : members.length = size + 1) :
    s.bestPlan visit (lastOf joins found) ⟨members⟩ =
      .ok ((found.plans.append level).get? ⟨members⟩) := by
  rw [h.get?_append_new hNodup hSublist hLength]
  exact hLevel.get?_eq (mem_subsetsOf.mpr ⟨hSublist, hLength⟩) fun other hOther hSame =>
    eq_of_sublist hNodup (mem_subsetsOf.mp hOther).1 hSublist hSame

/-- A level finishes the table up to its size. -/
theorem searched_step (h : FoundUpTo s visit joins size found) (hNodup : joins.Nodup)
    (hVisit : ∀ l, (visit l).Perm l)
    (hLevel : s.LevelOf visit (lastOf joins found) (subsetsOf (size + 1) joins) level) :
    Searched s visit joins (size + 1) (found.plans.append level) := by
  have hLarger : ∀ e ∈ level, e.1.members ∈ subsetsOf (size + 1) joins :=
    fun e he => ((hLevel.mem_iff e.1 e.2).mp he).1
  refine ⟨?_, ?_, ?_⟩
  · intro e he
    rcases List.mem_append.mp he with he | he
    · exact (h.searched.sets e he).mono (Nat.le_succ size)
    · obtain ⟨hSublist, hLength⟩ := mem_subsetsOf.mp (hLarger e he)
      refine ⟨hSublist, ?_, Nat.le_of_eq hLength⟩
      exact List.length_pos_iff.mp (by omega)
  · intro e he
    rcases List.mem_append.mp he with he | he
    · rw [show e.1 = ⟨e.1.members⟩ from rfl,
        get?_append_old hNodup hLarger (h.searched.sets e he)]
      exact h.searched.entry e he
    · obtain ⟨hMem, hBest⟩ := (hLevel.mem_iff e.1 e.2).mp he
      obtain ⟨hSublist, hLength⟩ := mem_subsetsOf.mp hMem
      exact Except.ok.inj ((h.bestPlan_new hNodup hLevel hSublist hLength).symm.trans hBest)
  · intro members hWithin
    have hVisited : ∀ p ∈ visit members, p ∈ members :=
      fun p hp => (hVisit members).mem_iff.mp hp
    rw [← Setting.bestPlan_congr fun p hp =>
      previousOf?_append hNodup hLarger hWithin (hVisited p hp)]
    rcases Nat.lt_or_ge size members.length with hSize | hSize
    · have hLength : members.length = size + 1 := Nat.le_antisymm hWithin.length_le hSize
      rw [← h.bestPlan_new hNodup hLevel hWithin.sublist hLength]
      exact Setting.bestPlan_congr fun p hp =>
        (h.previousOf?_last hNodup hWithin hLength (hVisited p hp)).symm
    · have hOld : Within joins size members := ⟨hWithin.sublist, hWithin.nonempty, hSize⟩
      rw [get?_append_old hNodup hLarger hOld]
      exact h.searched.cell members hOld

/-- After a level the plans of the last size are those of the level. -/
theorem step (h : FoundUpTo s visit joins size found) (hNodup : joins.Nodup)
    (hVisit : ∀ l, (visit l).Perm l)
    (hLevel : s.LevelOf visit (lastOf joins found) (subsetsOf (size + 1) joins) level) :
    FoundUpTo s visit joins (size + 1) ⟨found.plans.append level, .ofPlans joins level⟩ := by
  refine ⟨h.searched_step hNodup hVisit hLevel, fun members hWithin hLength => ?_⟩
  have hTree := hLevel.get?_ofPlans_eq
    (fun other hOther p hp => (mem_subsetsOf.mp hOther).1.subset hp)
    (mem_subsetsOf.mpr ⟨hWithin.sublist, hLength⟩) fun other hOther hSame =>
      eq_of_sublist hNodup (mem_subsetsOf.mp hOther).1 hWithin.sublist hSame
  exact Except.ok.inj
    (hTree.symm.trans (h.bestPlan_new hNodup hLevel hWithin.sublist hLength))

end FoundUpTo

-- ---------------------------------------------------------------------------
-- The search
-- ---------------------------------------------------------------------------

section Search

variable {s : Setting} {visit : Visit} {joins : List Predicate} {size : Nat} {found : Found}
  {E : PlannerError → Prop}

/-- A level fails only where the search of one of its sets fails. -/
theorem ensures_addLevel (hNodup : joins.Nodup) (hVisit : ∀ l, (visit l).Perm l) (verbose : Bool)
    (h : FoundUpTo s visit joins size found)
    (hBest : ∀ members, Within joins (size + 1) members →
      (s.bestPlan visit found.plans.get? ⟨members⟩).Ensures E fun _ => True) :
    (s.addLevel visit verbose joins found (size + 1)).outcome.Ensures E
      (FoundUpTo s visit joins (size + 1)) := by
  have hLevel : (s.plansOf visit (FoundUpTo.lastOf joins found)
      (subsetsOf (size + 1) joins)).Ensures E
      (s.LevelOf visit (FoundUpTo.lastOf joins found) (subsetsOf (size + 1) joins)) := by
    refine Setting.ensures_plansOf fun members hMem => ?_
    obtain ⟨hSublist, hLength⟩ := mem_subsetsOf.mp hMem
    have hWithin : Within joins (size + 1) members :=
      ⟨hSublist, List.length_pos_iff.mp (by omega), Nat.le_of_eq hLength⟩
    rw [Setting.bestPlan_congr fun p hp =>
      h.previousOf?_last hNodup hWithin hLength ((hVisit members).mem_iff.mp hp)]
    exact hBest members hWithin
  simp only [Setting.addLevel, Traced.outcome_bind, Traced.outcome_liftM, Traced.outcome_progress]
  refine ensures_bind hLevel fun level _ hOf => ?_
  exact .ok (h.step hNodup hVisit hOf)

/-- The sizes are gone through one by one. -/
theorem size_of_split {done rest : List Nat} {number : Nat}
    (h : List.range' 1 number = done ++ size :: rest) :
    size = done.length + 1 ∧ done.length < number := by
  have hGet : (List.range' 1 number)[done.length]? = some size := by simp [h]
  obtain ⟨hLt, hEq⟩ := List.getElem?_eq_some_iff.mp hGet
  rw [List.getElem_range'] at hEq
  rw [List.length_range'] at hLt
  omega

/-- A search that succeeds finishes its table; it fails only where the search of a set fails. -/
theorem ensures_search_of_bestPlan (hNodup : joins.Nodup) (hVisit : ∀ l, (visit l).Perm l)
    (verbose : Bool)
    (hBest : ∀ size plans, Searched s visit joins size plans → size < joins.length →
      ∀ members, Within joins (size + 1) members →
        (s.bestPlan visit plans.get? ⟨members⟩).Ensures E fun _ => True) :
    (s.search visit verbose joins).outcome.Ensures E (Searched s visit joins joins.length) := by
  simp only [Setting.search, Traced.outcome_bind, Traced.outcome_foldlM, Traced.outcome_pure]
  -- after some sizes the table is finished up to their number
  have hLoop : ((List.range' 1 joins.length).foldlM
      (fun found size => (s.addLevel visit verbose joins found size).outcome)
      ⟨.empty, .empty⟩).Ensures E
        (FoundUpTo s visit joins (List.range' 1 joins.length).length) := by
    refine ensures_foldlM (M := fun done => FoundUpTo s visit joins done.length) FoundUpTo.start
      fun done size rest found hSplit hDone => ?_
    obtain ⟨rfl, hLt⟩ := size_of_split hSplit
    rw [List.length_append]
    exact ensures_addLevel hNodup hVisit verbose hDone (hBest _ _ hDone.searched hLt)
  rw [List.length_range'] at hLoop
  exact ensures_bind hLoop fun found _ hFound => .ok hFound.searched

/-- The plan that a join of a set extends executes other joins of the set. -/
theorem Searched.exists_join_of_previous {plans : PlanTable} (h : Searched s visit joins size plans)
    (hNodup : joins.Nodup) (hVisit : ∀ l, (visit l).Perm l) {members : List Predicate}
    (hWithin : Within joins (size + 1) members) {p : Predicate} (hp : p ∈ members)
    {previous : Option Plan}
    (hPrevious : Setting.previousOf? plans.get? ⟨members⟩ p = some previous) :
    ∀ q ∈ Setting.orderOf previous, ∃ r ∈ joins, q.SameJoin r := by
  intro q hq
  rcases Setting.previousOf?_cases (hWithin.nodup hNodup) hPrevious with
    ⟨-, rfl⟩ | ⟨plan, hRest, hPlan, rfl⟩
  · cases hq
  · have hErase := hWithin.erase hp hRest
    obtain ⟨r, hr, hSame⟩ :=
      exists_sameJoin_of_mem (h.planFor hNodup hVisit hErase hPlan).executes hq
    exact ⟨r, hErase.sublist.subset hr, hSame⟩

/-- Extending a plan of some of the joins by one of them fails with such errors only. -/
def FailsOnly (E : PlannerError → Prop) (s : Setting) (joins : List Predicate) : Prop :=
  ∀ bound previous p, p ∈ joins →
    (∀ q ∈ Setting.orderOf previous, ∃ r ∈ joins, q.SameJoin r) →
      (s.extendBelow bound previous p).Ensures E fun _ => True

/-- A search fails only where the extension of a plan fails. -/
theorem ensures_search (hFails : FailsOnly E s joins) (hNodup : joins.Nodup)
    (hVisit : ∀ l, (visit l).Perm l) (verbose : Bool) :
    (s.search visit verbose joins).outcome.Ensures E (Searched s visit joins joins.length) := by
  refine ensures_search_of_bestPlan hNodup hVisit verbose
    fun size plans hSearched _ members hWithin => ?_
  refine (Setting.ensures_bestPlan fun p hp bound previous hPrevious => ?_).mono
    fun _ _ _ => trivial
  have hpMem : p ∈ members := (hVisit members).mem_iff.mp hp
  exact hFails bound previous p (hWithin.sublist.subset hpMem)
    (hSearched.exists_join_of_previous hNodup hVisit hWithin hpMem hPrevious)

theorem searched_of_search (hNodup : joins.Nodup) (hVisit : ∀ l, (visit l).Perm l) {verbose : Bool}
    {plans : PlanTable} (h : (s.search visit verbose joins).outcome = .ok plans) :
    Searched s visit joins joins.length plans :=
  (ensures_search (fun _ _ _ _ _ => ensures_any fun _ _ => trivial) hNodup hVisit
    verbose).of_eq_ok h

end Search

end JoinPlanner
