import JoinPlanner.Proofs.Search.SameCondition

/-!
# JoinPlanner — a search under other names

If the subqueries of joins are exchanged for others of which the same is known, a search that
tries the joins in the same sequence does the same, step by step: it finds the same plans or
fails with the same error.

* `Renaming`      — the joins stay apart, and the sides of their subqueries are keys or not alike.
* `inputs?_map`, `extendBelow_map`, `bestPlan_map`, `plansOf_map` — the steps of the search.
* `Found.renamed` — what a search has found, under other names.
* `search_map`    — the whole search.
-/

namespace JoinPlanner

open Outcome Setting

-- ---------------------------------------------------------------------------
-- Renamings
-- ---------------------------------------------------------------------------

/-- The joins are the same conditions with other subqueries. They stay apart, and the sides of
their subqueries are keys or not alike. -/
structure Renaming (s : Setting) (joins : List Predicate) (other : Predicate → Predicate) : Prop
    where
  same : ∀ p : Predicate, p.SameCondition (other p)
  injective : ∀ p ∈ joins, ∀ q ∈ joins, other p = other q → p = q
  keys : ∀ p ∈ joins, s.isKey (other p).right = s.isKey p.right

/-- The set of the other joins. -/
def JoinSet.renamed (other : Predicate → Predicate) (set : JoinSet) : JoinSet :=
  ⟨set.members.map other⟩

namespace Renaming

variable {s : Setting} {joins members : List Predicate} {other : Predicate → Predicate}
  {previous : Option Plan} {known known' : JoinSet → Option Plan} {visit visit' : Visit}

-- ---------------------------------------------------------------------------
-- Extensions
-- ---------------------------------------------------------------------------

theorem hasKey_map (h : Renaming s joins other) {order : List Predicate}
    (hOrder : ∀ q ∈ order, ∃ p ∈ joins, q.SameJoin p) :
    s.hasKey (order.map other) = s.hasKey order := by
  induction order with
  | nil => rfl
  | cons q rest ih =>
    have hRight : s.isKey (other q).right = s.isKey q.right := by
      cases hKind : q.isSubplan with
      | false => rw [(h.same q).eq_of_table hKind]
      | true =>
        -- a join with a subplan has one orientation
        obtain ⟨p, hp, hSame⟩ := hOrder q List.mem_cons_self
        have hOne : q = p := by
          rcases hSame with rfl | rfl
          · rfl
          · exact Predicate.flipped_of_subplan (p.isSubplan_flipped.symm.trans hKind)
        exact hOne ▸ h.keys p hp
    rw [List.map_cons, hasKey, hasKey, (h.same q).left, hRight,
      ih fun r hr => hOrder r (List.mem_cons_of_mem q hr)]

theorem joinsTable_map (h : Renaming s joins other) (order : List Predicate)
    (table : Option String) : joinsTable (order.map other) table = joinsTable order table := by
  simp only [joinsTable, List.any_map, Function.comp_def, Predicate.joins, (h.same _).tables_eq]

theorem inputs?_map (h : Renaming s joins other)
    (hOrder : ∀ q ∈ orderOf previous, ∃ r ∈ joins, q.SameJoin r) (p : Predicate) :
    s.inputs? (previous.map (Plan.renamed other)) (other p) = s.inputs? previous p := by
  rw [inputs?_of_sameCondition (h.same p)]
  cases previous with
  | none => rfl
  | some plan =>
    have hKey : s.hasKey (plan.renamed other).order = s.hasKey plan.order := h.hasKey_map hOrder
    have hInput : s.planInput (plan.renamed other) = s.planInput plan := by
      rw [planInput, planInput, hKey]
      rfl
    simp only [Option.map_some, inputs?, hInput]
    simp only [Plan.renamed, h.joinsTable_map]

theorem complete_map (h : Renaming s joins other) (previous : Option Plan) (o : Oriented) :
    s.complete (previous.map (Plan.renamed other)) (o.renamed other) =
      Plan.renamed other <$> s.complete previous o := by
  have hCard := cardinalityOf_renamed (s := s) ⟨rfl, rfl, rfl, fun _ => rfl⟩ h.same o
  simp only [cardinalityOf] at hCard
  rw [complete, complete, hCard, orderOf_renamed, map_bind]
  refine bind_congr fun card => ?_
  rw [map_pure, Plan.renamed, List.map_append]
  rfl

theorem extendBelow_map (h : Renaming s joins other)
    (hOrder : ∀ q ∈ orderOf previous, ∃ r ∈ joins, q.SameJoin r) (bound : Cost) (p : Predicate) :
    s.extendBelow bound (previous.map (Plan.renamed other)) (other p) =
      Option.map (Plan.renamed other) <$> s.extendBelow bound previous p := by
  rw [extendBelow, extendBelow, h.inputs?_map hOrder, map_bind]
  refine bind_congr fun inputs => ?_
  cases inputs with
  | none => rfl
  | some pair =>
    obtain ⟨l, r⟩ := pair
    simp only [orient_map h.same]
    cases orient p l r with
    | error e => rfl
    | ok o =>
      show (if bound.le o.cost = true then pure none else
          some <$> s.complete (previous.map (Plan.renamed other)) (o.renamed other)) =
        Option.map (Plan.renamed other) <$>
          (if bound.le o.cost = true then pure none else some <$> s.complete previous o)
      split
      · rfl
      · rw [h.complete_map]
        cases s.complete previous o <;> rfl

-- ---------------------------------------------------------------------------
-- One set
-- ---------------------------------------------------------------------------

theorem without_map (h : Renaming s joins other) (hMembers : ∀ q ∈ members, q ∈ joins)
    {p : Predicate} (hp : p ∈ members) :
    (JoinSet.renamed other ⟨members⟩).without (other p) =
      (JoinSet.without ⟨members⟩ p).renamed other := by
  rw [JoinSet.without, JoinSet.renamed, JoinSet.renamed, JoinSet.without, List.filter_map]
  congr 2
  refine List.filter_congr fun q hq => ?_
  have hIff : other q = other p ↔ q = p :=
    ⟨h.injective q (hMembers q hq) p (hMembers p hp), congrArg other⟩
  simp [hIff]

/-- A look-up that answers for the other joins of a set under their new names. -/
def Knows (other : Predicate → Predicate) (known known' : JoinSet → Option Plan)
    (members : List Predicate) : Prop :=
  ∀ p ∈ members, known' ((JoinSet.without ⟨members⟩ p).renamed other) =
    (known (.without ⟨members⟩ p)).map (Plan.renamed other)

theorem previousOf?_map (h : Renaming s joins other) (hMembers : ∀ q ∈ members, q ∈ joins)
    (hKnown : Knows other known known' members) {p : Predicate} (hp : p ∈ members) :
    previousOf? known' (.renamed other ⟨members⟩) (other p) =
      (previousOf? known ⟨members⟩ p).map (Option.map (Plan.renamed other)) := by
  rw [previousOf?, previousOf?, h.without_map hMembers hp, hKnown p hp]
  have hEmpty : ((JoinSet.without ⟨members⟩ p).renamed other).members.isEmpty =
      (JoinSet.without ⟨members⟩ p).members.isEmpty := List.isEmpty_map
  rw [hEmpty]
  split
  · rfl
  · cases known (.without ⟨members⟩ p) <;> rfl

theorem improve_map (h : Renaming s joins other) (hMembers : ∀ q ∈ members, q ∈ joins)
    (hKnown : Knows other known known' members) {p : Predicate} (hp : p ∈ members)
    (hOrder : ∀ previous, previousOf? known ⟨members⟩ p = some previous →
      ∀ q ∈ orderOf previous, ∃ r ∈ joins, q.SameJoin r) (best : Option Plan) :
    s.improve known' (.renamed other ⟨members⟩) (best.map (Plan.renamed other)) (other p) =
      Option.map (Plan.renamed other) <$> s.improve known ⟨members⟩ best p := by
  have hBound : boundOf (best.map (Plan.renamed other)) = boundOf best := by cases best <;> rfl
  have hCandidate : s.candidate known' (.renamed other ⟨members⟩)
      (boundOf (best.map (Plan.renamed other))) (other p) =
        Option.map (Plan.renamed other) <$> s.candidate known ⟨members⟩ (boundOf best) p := by
    rw [candidate_eq, candidate_eq, h.previousOf?_map hMembers hKnown hp, hBound]
    cases hPrevious : previousOf? known ⟨members⟩ p with
    | none => rfl
    | some previous => exact h.extendBelow_map (hOrder previous hPrevious) _ p
  show (s.candidate known' _ (boundOf _) (other p) >>= _) =
    Option.map (Plan.renamed other) <$> (s.candidate known _ (boundOf best) p >>= _)
  rw [hCandidate]
  cases s.candidate known ⟨members⟩ (boundOf best) p with
  | error e => rfl
  | ok found => cases found <;> rfl

/-- The set of the other joins has the same plan. -/
theorem bestPlan_map (h : Renaming s joins other) (hMembers : ∀ q ∈ members, q ∈ joins)
    (hVisit : ∀ l, (visit l).Perm l)
    (hSequence : visit' (members.map other) = (visit members).map other)
    (hKnown : Knows other known known' members)
    (hOrder : ∀ p ∈ members, ∀ previous, previousOf? known ⟨members⟩ p = some previous →
      ∀ q ∈ orderOf previous, ∃ r ∈ joins, q.SameJoin r) :
    s.bestPlan visit' known' (.renamed other ⟨members⟩) =
      Option.map (Plan.renamed other) <$> s.bestPlan visit known ⟨members⟩ := by
  rw [bestPlan, bestPlan, JoinSet.renamed, hSequence, List.foldlM_map]
  show List.foldlM _ (Option.map (Plan.renamed other) none) _ = _
  refine foldlM_map_of_steps (M := fun _ _ => True) trivial
    fun done p rest best hSplit _ => ⟨?_, fun _ _ => trivial⟩
  have hp : p ∈ members := by
    refine (hVisit members).mem_iff.mp ?_
    rw [hSplit]
    simp
  exact h.improve_map hMembers hKnown hp (hOrder p hp) best

end Renaming

-- ---------------------------------------------------------------------------
-- Tables of plans
-- ---------------------------------------------------------------------------

/-- Plans of sets under other names. -/
def renamedEntries (other : Predicate → Predicate) (entries : List (JoinSet × Plan)) :
    List (JoinSet × Plan) :=
  entries.map fun e => (e.1.renamed other, e.2.renamed other)

/-- A table with other joins. -/
def PlanTable.renamed (other : Predicate → Predicate) (plans : PlanTable) : PlanTable :=
  ⟨renamedEntries other plans.entries⟩

/-- A tree with other values. -/
def ChoiceTree.map {α : Type} (f : α → α) : ChoiceTree α → ChoiceTree α
  | empty => empty
  | node value skipped taken => node (value.map f) (skipped.map f) (taken.map f)

theorem ChoiceTree.get?_map {α : Type} (f : α → α) (tree : ChoiceTree α) (choice : Choice) :
    (tree.map f).get? choice = (tree.get? choice).map f := by
  induction tree generalizing choice with
  | empty => cases choice <;> rfl
  | node value skipped taken ihSkipped ihTaken =>
    rcases choice with _ | ⟨_ | _, rest⟩
    · rfl
    · exact ihSkipped rest
    · exact ihTaken rest

theorem ChoiceTree.map_insert {α : Type} (f : α → α) (value : α) (choice : Choice)
    (tree : ChoiceTree α) :
    (ChoiceTree.insert value choice tree).map f = .insert (f value) choice (tree.map f) := by
  induction choice generalizing tree with
  | nil => cases tree <;> rfl
  | cons decision rest ih =>
    cases tree <;> cases decision <;> simp [ChoiceTree.insert, ChoiceTree.map, ih]

/-- What a search has found, with other joins. -/
def Found.renamed (other : Predicate → Predicate) (found : Found) : Found :=
  ⟨found.plans.renamed other, found.last.map (Plan.renamed other)⟩

namespace Renaming

variable {s : Setting} {joins : List Predicate} {other : Predicate → Predicate}
  {visit visit' : Visit} {found : Found} {size : Nat}

theorem mem_renamed (h : Renaming s joins other) {set : JoinSet}
    (hSet : ∀ q ∈ set.members, q ∈ joins) {p : Predicate} (hp : p ∈ joins) :
    other p ∈ (set.renamed other).members ↔ p ∈ set.members := by
  refine ⟨fun hMem => ?_, fun hMem => List.mem_map_of_mem hMem⟩
  obtain ⟨q, hq, hSame⟩ := List.mem_map.mp hMem
  exact h.injective q (hSet q hq) p hp hSame ▸ hq

theorem choiceOf_map (h : Renaming s joins other) {set : JoinSet}
    (hSet : ∀ q ∈ set.members, q ∈ joins) :
    choiceOf (joins.map other) (set.renamed other) = choiceOf joins set := by
  rw [choiceOf, choiceOf, List.map_map]
  refine List.map_congr_left fun p hp => ?_
  rw [Function.comp_apply, Bool.eq_iff_iff, List.contains_iff_mem, List.contains_iff_mem]
  exact h.mem_renamed hSet hp

theorem beq_renamed (h : Renaming s joins other) {set set' : JoinSet}
    (hSet : ∀ q ∈ set.members, q ∈ joins) (hSet' : ∀ q ∈ set'.members, q ∈ joins) :
    (set.renamed other == set'.renamed other) = (set == set') := by
  rw [Bool.eq_iff_iff, JoinSet.beq_iff, JoinSet.beq_iff]
  constructor
  · intro hSame p
    constructor
    · intro hp
      exact (h.mem_renamed hSet' (hSet p hp)).mp ((hSame _).mp (List.mem_map_of_mem hp))
    · intro hp
      exact (h.mem_renamed hSet (hSet' p hp)).mp ((hSame _).mpr (List.mem_map_of_mem hp))
  · intro hSame q
    simp only [JoinSet.renamed, List.mem_map, hSame]

/-- A set of other joins has the plan of the set, with its own joins. -/
theorem get?_renamed (h : Renaming s joins other) {plans : PlanTable}
    (hPlans : ∀ e ∈ plans.entries, ∀ q ∈ e.1.members, q ∈ joins) {set : JoinSet}
    (hSet : ∀ q ∈ set.members, q ∈ joins) :
    (plans.renamed other).get? (set.renamed other) = (plans.get? set).map (Plan.renamed other) := by
  obtain ⟨entries⟩ := plans
  show Association.get? (renamedEntries other entries) _ = (Association.get? entries set).map _
  induction entries with
  | nil => rfl
  | cons e rest ih =>
    have hRest := ih fun e' he' => hPlans e' (List.mem_cons_of_mem e he')
    rw [renamedEntries] at hRest ⊢
    rw [List.map_cons, Association.get?, Association.get?,
      h.beq_renamed (hPlans e List.mem_cons_self) hSet, hRest]
    split <;> rfl

theorem ofPlans_map (h : Renaming s joins other) {level : List (JoinSet × Plan)}
    (hLevel : ∀ e ∈ level, ∀ q ∈ e.1.members, q ∈ joins) :
    ChoiceTree.ofPlans (joins.map other) (renamedEntries other level) =
      (ChoiceTree.ofPlans joins level).map (Plan.renamed other) := by
  rw [ChoiceTree.ofPlans, ChoiceTree.ofPlans, renamedEntries, List.foldl_map]
  show List.foldl _ (ChoiceTree.map (Plan.renamed other) .empty) _ = _
  generalize ChoiceTree.empty = tree
  induction level generalizing tree with
  | nil => rfl
  | cons e rest ih =>
    have hInsert : ChoiceTree.insert (e.2.renamed other)
        (choiceOf (joins.map other) (e.1.renamed other)) (tree.map (Plan.renamed other)) =
          (ChoiceTree.insert e.2 (choiceOf joins e.1) tree).map (Plan.renamed other) := by
      rw [h.choiceOf_map (hLevel e List.mem_cons_self), ChoiceTree.map_insert]
    rw [List.foldl_cons, List.foldl_cons]
    exact (congrArg (fun tree => List.foldl _ tree rest) hInsert).trans
      (ih (fun e' he' => hLevel e' (List.mem_cons_of_mem e he')) _)

-- ---------------------------------------------------------------------------
-- Levels
-- ---------------------------------------------------------------------------

theorem plansOf_map {known known' : JoinSet → Option Plan} {lists : List (List Predicate)}
    (hBest : ∀ members ∈ lists, s.bestPlan visit' known' (.renamed other ⟨members⟩) =
      Option.map (Plan.renamed other) <$> s.bestPlan visit known ⟨members⟩) :
    s.plansOf visit' known' (lists.map (List.map other)) =
      renamedEntries other <$> s.plansOf visit known lists := by
  induction lists with
  | nil => rfl
  | cons members rest ih =>
    have hFirst := hBest members List.mem_cons_self
    have hRest := ih fun other hOther => hBest other (List.mem_cons_of_mem members hOther)
    rw [JoinSet.renamed] at hFirst
    rw [List.map_cons, plansOf, plansOf, hFirst, hRest]
    cases s.bestPlan visit known ⟨members⟩ with
    | error e => rfl
    | ok best => cases best <;> cases s.plansOf visit known rest <;> rfl

/-- The sets of a size have the same plans under the other names. -/
theorem addLevel_map (h : Renaming s joins other) (hNodup : joins.Nodup)
    (hVisit : ∀ l, (visit l).Perm l)
    (hSequence : ∀ members, (∀ p ∈ members, p ∈ joins) →
      visit' (members.map other) = (visit members).map other)
    (verbose verbose' : Bool) (hFound : FoundUpTo s visit joins size found) :
    (s.addLevel visit' verbose' (joins.map other) (found.renamed other) (size + 1)).outcome =
      Found.renamed other <$> (s.addLevel visit verbose joins found (size + 1)).outcome := by
  have hBest : ∀ members ∈ subsetsOf (size + 1) joins,
      s.bestPlan visit' (FoundUpTo.lastOf (joins.map other) (found.renamed other))
        (.renamed other ⟨members⟩) =
      Option.map (Plan.renamed other) <$>
        s.bestPlan visit (FoundUpTo.lastOf joins found) ⟨members⟩ := by
    intro members hMem
    obtain ⟨hSublist, hLength⟩ := mem_subsetsOf.mp hMem
    have hWithin : Within joins (size + 1) members :=
      ⟨hSublist, List.length_pos_iff.mp (by omega), Nat.le_of_eq hLength⟩
    have hMembers : ∀ q ∈ members, q ∈ joins := fun q hq => hSublist.subset hq
    refine h.bestPlan_map hMembers hVisit (hSequence members hMembers) (fun p _ => ?_)
      fun p hp previous hPrevious => ?_
    · rw [FoundUpTo.lastOf, FoundUpTo.lastOf, h.choiceOf_map fun q hq =>
        hMembers q (JoinSet.mem_without.mp hq).1]
      exact ChoiceTree.get?_map _ _ _
    · rw [hFound.previousOf?_last hNodup hWithin hLength hp] at hPrevious
      exact hFound.searched.exists_join_of_previous hNodup hVisit hWithin hp hPrevious
  have hPlans := plansOf_map hBest
  simp only [Setting.addLevel, Traced.outcome_bind, Traced.outcome_liftM, Traced.outcome_progress,
    subsetsOf_map]
  show (s.plansOf visit' (FoundUpTo.lastOf (joins.map other) (found.renamed other)) _ >>= _) =
    Found.renamed other <$> (s.plansOf visit (FoundUpTo.lastOf joins found) _ >>= _)
  rw [hPlans]
  cases hLevel : s.plansOf visit (FoundUpTo.lastOf joins found) (subsetsOf (size + 1) joins) with
  | error e => rfl
  | ok level =>
    have hOf : s.LevelOf visit (FoundUpTo.lastOf joins found) (subsetsOf (size + 1) joins) level :=
      (Setting.ensures_plansOf fun _ _ => ensures_any fun _ _ => trivial).of_eq_ok hLevel
    have hSets : ∀ e ∈ level, ∀ q ∈ e.1.members, q ∈ joins := fun e he q hq =>
      (mem_subsetsOf.mp ((hOf.mem_iff e.1 e.2).mp he).1).1.subset hq
    show Except.ok (Found.mk ((found.plans.renamed other).append (renamedEntries other level))
      (.ofPlans (joins.map other) (renamedEntries other level))) = _
    rw [h.ofPlans_map hSets, PlanTable.append, PlanTable.renamed, renamedEntries, renamedEntries,
      ← List.map_append]
    rfl

/-- The search for other joins that tries them in the same sequence does the same. -/
theorem search_map (h : Renaming s joins other) (hNodup : joins.Nodup)
    (hVisit : ∀ l, (visit l).Perm l)
    (hSequence : ∀ members, (∀ p ∈ members, p ∈ joins) →
      visit' (members.map other) = (visit members).map other)
    (verbose verbose' : Bool) :
    (s.search visit' verbose' (joins.map other)).outcome =
      PlanTable.renamed other <$> (s.search visit verbose joins).outcome := by
  have hLoop : (List.range' 1 joins.length).foldlM (fun found size =>
      (s.addLevel visit' verbose' (joins.map other) found size).outcome) ⟨.empty, .empty⟩ =
        Found.renamed other <$> (List.range' 1 joins.length).foldlM (fun found size =>
          (s.addLevel visit verbose joins found size).outcome) ⟨.empty, .empty⟩ := by
    refine foldlM_map_of_steps (g := Found.renamed other)
      (M := fun done found => FoundUpTo s visit joins done.length found) FoundUpTo.start
      fun done size rest found hSplit hDone => ?_
    obtain ⟨rfl, -⟩ := size_of_split hSplit
    refine ⟨h.addLevel_map hNodup hVisit hSequence verbose verbose' hDone, fun found' hNext => ?_⟩
    rw [List.length_append]
    exact (ensures_addLevel hNodup hVisit verbose hDone fun _ _ =>
      ensures_any fun _ _ => trivial).of_eq_ok hNext
  simp only [Setting.search, Traced.outcome_bind, Traced.outcome_foldlM, Traced.outcome_pure,
    List.length_map, hLoop]
  cases (List.range' 1 joins.length).foldlM (fun found size =>
    (s.addLevel visit verbose joins found size).outcome) ⟨.empty, .empty⟩ <;> rfl

end Renaming

end JoinPlanner
