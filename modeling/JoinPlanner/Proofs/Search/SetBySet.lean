import JoinPlanner.Proofs.Search.Levels

/-!
# JoinPlanner — set by set

The search adds the plans of one size at once. They depend on those of smaller sets only, so it
does the same as going through the sets one by one, with every plan in the table as soon as it is
found.

* `Setting.addSet`  — the step of one set.
* `bestPlan_again`, `add_eq_append` — in the middle of a level a set finds the plan that it has in
  the level, and its plan comes last.
* `foldlM_addSet`   — the sets of one size.
* `search_eq_foldlM_addSet` — all sets, smaller ones first.
-/

namespace JoinPlanner

open Outcome

/-- Stores the best plan of a set, if there is one, given the plans in the table. -/
def Setting.addSet (s : Setting) (visit : Visit) (plans : PlanTable) (members : List Predicate) :
    Outcome PlanTable := do
  match ← s.bestPlan visit plans.get? ⟨members⟩ with
  | none => return plans
  | some plan => return plans.add ⟨members⟩ plan

namespace FoundUpTo

variable {s : Setting} {visit : Visit} {joins members : List Predicate} {size : Nat}
  {found : Found} {done : List (JoinSet × Plan)}

-- ---------------------------------------------------------------------------
-- One size
-- ---------------------------------------------------------------------------

/-- Plans of other sets of a size do not change what is found for one of them. -/
theorem bestPlan_again (h : FoundUpTo s visit joins size found) (hNodup : joins.Nodup)
    (hVisit : ∀ l, (visit l).Perm l) (hDone : ∀ e ∈ done, e.1.members ∈ subsetsOf (size + 1) joins)
    (hMem : members ∈ subsetsOf (size + 1) joins) :
    s.bestPlan visit (found.plans.append done).get? ⟨members⟩ =
      s.bestPlan visit (lastOf joins found) ⟨members⟩ := by
  obtain ⟨hSublist, hLength⟩ := mem_subsetsOf.mp hMem
  have hWithin : Within joins (size + 1) members :=
    ⟨hSublist, List.length_pos_iff.mp (by omega), Nat.le_of_eq hLength⟩
  refine Setting.bestPlan_congr fun p hp => ?_
  have hpMem : p ∈ members := (hVisit members).mem_iff.mp hp
  rw [h.previousOf?_last hNodup hWithin hLength hpMem,
    previousOf?_append hNodup hDone hWithin hpMem]

/-- A set that is new is put after all others. -/
theorem add_eq_append (h : FoundUpTo s visit joins size found) (hNodup : joins.Nodup)
    (hDone : ∀ e ∈ done, e.1.members ∈ subsetsOf (size + 1) joins)
    (hMem : members ∈ subsetsOf (size + 1) joins) (hNew : ∀ e ∈ done, e.1.members ≠ members)
    (plan : Plan) :
    (found.plans.append done).add ⟨members⟩ plan =
      found.plans.append (done ++ [(⟨members⟩, plan)]) := by
  obtain ⟨hSublist, hLength⟩ := mem_subsetsOf.mp hMem
  have hNone : (found.plans.append done).get? ⟨members⟩ = none := by
    rw [h.get?_append_new hNodup hSublist hLength, Association.get?_eq_none_iff]
    intro e he
    refine Bool.eq_false_iff.mpr fun hSame => hNew e he ?_
    exact eq_of_sublist hNodup (mem_subsetsOf.mp (hDone e he)).1 hSublist (JoinSet.beq_iff.mp hSame)
  have hPut := Association.put_of_get?_eq_none hNone plan
  rw [PlanTable.add, hPut, PlanTable.append, PlanTable.append, List.append_assoc]

/-- Going through the sets of one size one by one finds the plans of the level. -/
theorem foldlM_addSet (h : FoundUpTo s visit joins size found) (hNodup : joins.Nodup)
    (hVisit : ∀ l, (visit l).Perm l) {lists : List (List Predicate)} (hApart : lists.Nodup)
    (hLists : ∀ members ∈ lists, members ∈ subsetsOf (size + 1) joins)
    (hDone : ∀ e ∈ done, e.1.members ∈ subsetsOf (size + 1) joins)
    (hNew : ∀ e ∈ done, e.1.members ∉ lists) :
    lists.foldlM (s.addSet visit) (found.plans.append done) =
      (fun level => found.plans.append (done ++ level)) <$>
        s.plansOf visit (lastOf joins found) lists := by
  -- the induction is on the sets that are left, after those whose plans are in the table
  induction lists generalizing done with
  | nil =>
    have hSame := List.append_nil done
    exact congrArg (fun level => Except.ok (found.plans.append level)) hSame.symm
  | cons members rest ih =>
    obtain ⟨hFirst, hRest⟩ := List.nodup_cons.mp hApart
    have hMem := hLists members List.mem_cons_self
    have hOthers : ∀ other ∈ rest, other ∈ subsetsOf (size + 1) joins :=
      fun other hOther => hLists other (List.mem_cons_of_mem members hOther)
    have hLater : ∀ e ∈ done, e.1.members ∉ rest :=
      fun e he hOther => hNew e he (List.mem_cons_of_mem members hOther)
    rw [List.foldlM_cons, Setting.addSet, Setting.plansOf,
      h.bestPlan_again hNodup hVisit hDone hMem]
    cases hBest : s.bestPlan visit (lastOf joins found) ⟨members⟩ with
    | error e => rfl
    | ok best =>
      cases best with
      | none => exact ih hRest hOthers hDone hLater
      | some plan =>
        have hAdd := h.add_eq_append hNodup hDone hMem
          (fun e he hSame => hNew e he (hSame ▸ List.mem_cons_self)) plan
        have hDone' : ∀ e ∈ done ++ [(⟨members⟩, plan)],
            e.1.members ∈ subsetsOf (size + 1) joins :=
          List.forall_mem_append.mpr ⟨hDone, List.forall_mem_singleton.mpr hMem⟩
        have hLater' : ∀ e ∈ done ++ [(⟨members⟩, plan)], e.1.members ∉ rest :=
          List.forall_mem_append.mpr ⟨hLater, List.forall_mem_singleton.mpr hFirst⟩
        show rest.foldlM (s.addSet visit) ((found.plans.append done).add ⟨members⟩ plan) = _
        rw [hAdd, ih hRest hOthers hDone' hLater']
        simp only [List.append_assoc, List.singleton_append]
        cases s.plansOf visit (lastOf joins found) rest <;> rfl

/-- A level stores what the sets of its size store one by one. -/
theorem plans_addLevel (h : FoundUpTo s visit joins size found) (hNodup : joins.Nodup)
    (hVisit : ∀ l, (visit l).Perm l) (verbose : Bool) :
    (subsetsOf (size + 1) joins).foldlM (s.addSet visit) found.plans =
      Found.plans <$> (s.addLevel visit verbose joins found (size + 1)).outcome := by
  have hNone : ∀ e ∈ ([] : List (JoinSet × Plan)), e.1.members ∈ subsetsOf (size + 1) joins := by
    intro e he
    cases he
  have hSets := h.foldlM_addSet hNodup hVisit (nodup_subsetsOf hNodup (size + 1))
    (fun members hMem => hMem) hNone (fun e he => by cases he)
  have hNothing : found.plans.append [] = found.plans :=
    congrArg PlanTable.mk (List.append_nil found.plans.entries)
  rw [hNothing] at hSets
  simp only [hSets, Setting.addLevel, Traced.outcome_bind, Traced.outcome_liftM,
    Traced.outcome_progress, Traced.outcome_pure]
  cases s.plansOf visit (lastOf joins found) (subsetsOf (size + 1) joins) <;> rfl

end FoundUpTo

-- ---------------------------------------------------------------------------
-- All sizes
-- ---------------------------------------------------------------------------

/-- The search goes through all sets of joins, smaller ones first. -/
theorem search_eq_foldlM_addSet {s : Setting} {visit : Visit} {joins : List Predicate}
    (hNodup : joins.Nodup) (hVisit : ∀ l, (visit l).Perm l) (verbose : Bool) :
    (s.search visit verbose joins).outcome =
      (subsetsBySize joins).foldlM (s.addSet visit) .empty := by
  have hLoop : (List.range' 1 joins.length).foldlM
      (fun plans size => (subsetsOf size joins).foldlM (s.addSet visit) plans) .empty =
        Found.plans <$> (List.range' 1 joins.length).foldlM
          (fun found size => (s.addLevel visit verbose joins found size).outcome)
          ⟨.empty, .empty⟩ := by
    -- after some sizes the table is finished up to their number
    refine foldlM_map_of_steps (g := Found.plans)
      (M := fun done => FoundUpTo s visit joins done.length) FoundUpTo.start
      fun done size rest found hSplit hDone => ?_
    obtain ⟨rfl, -⟩ := size_of_split hSplit
    refine ⟨hDone.plans_addLevel hNodup hVisit verbose, fun found' hFound => ?_⟩
    rw [List.length_append]
    exact (ensures_addLevel hNodup hVisit verbose hDone
      fun _ _ => ensures_any fun _ _ => trivial).of_eq_ok hFound
  simp only [Setting.search, Traced.outcome_bind, Traced.outcome_foldlM, Traced.outcome_pure]
  rw [subsetsBySize, foldlM_flatMap, hLoop, map_eq_pure_bind]
  rfl

end JoinPlanner
