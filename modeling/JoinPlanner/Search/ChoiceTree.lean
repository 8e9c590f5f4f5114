import JoinPlanner.PlanTable

/-!
# JoinPlanner — plans by choice

A search looks up plans of many subsets of one list of joins. A subset is a choice: for
each join, whether it is taken. A tree branches by the choices, so that a look-up takes
as many steps as there are joins.

* `ChoiceTree`   — values of choices.
* `get?_insert`  — storing a value changes what is known of its choice and of no other.
* `choiceOf`     — the choice of a set of joins.
* `choiceOf_eq`  — sets of joins are equal if and only if their choices are.
-/

namespace JoinPlanner

/-- For each element of a list, whether it is taken. -/
abbrev Choice := List Bool

/-- Values of choices. -/
inductive ChoiceTree (α : Type) where
  | empty
  /-- The value of the choice that ends here, and the trees behind the next decision. -/
  | node (value : Option α) (skipped taken : ChoiceTree α)
  deriving Repr

namespace ChoiceTree

variable {α : Type}

/-- The value of a choice. -/
def get? : ChoiceTree α → Choice → Option α
  | empty, _ => none
  | node value _ _, [] => value
  | node _ skipped _, false :: rest => skipped.get? rest
  | node _ _ taken, true :: rest => taken.get? rest

/-- Sets the value of a choice. -/
def insert (value : α) : Choice → ChoiceTree α → ChoiceTree α
  | [], empty => node (some value) empty empty
  | [], node _ skipped taken => node (some value) skipped taken
  | false :: rest, empty => node none (insert value rest empty) empty
  | true :: rest, empty => node none empty (insert value rest empty)
  | false :: rest, node own skipped taken => node own (insert value rest skipped) taken
  | true :: rest, node own skipped taken => node own skipped (insert value rest taken)

/-- Storing a value changes what is known of its choice and of no other. -/
theorem get?_insert (value : α) (choice other : Choice) (tree : ChoiceTree α) :
    (insert value choice tree).get? other
      = if choice = other then some value else tree.get? other := by
  induction choice generalizing other tree with
  | nil => cases tree <;> rcases other with _ | ⟨_ | _, other⟩ <;> simp [insert, get?]
  | cons decision rest ih =>
    cases tree <;> cases decision <;> rcases other with _ | ⟨_ | _, other⟩ <;>
      simp [insert, get?, ih]

end ChoiceTree

-- ---------------------------------------------------------------------------
-- Sets of joins
-- ---------------------------------------------------------------------------

/-- Which of the joins a set takes. -/
def choiceOf (joins : List Predicate) (set : JoinSet) : Choice :=
  joins.map fun p => set.members.contains p

/-- Two sets make the same choice if they agree on all joins. -/
theorem choiceOf_eq_iff {joins : List Predicate} {s t : JoinSet} :
    choiceOf joins s = choiceOf joins t ↔ ∀ p ∈ joins, p ∈ s.members ↔ p ∈ t.members := by
  rw [choiceOf, choiceOf, List.map_inj_left]
  refine forall₂_congr fun p _ => ?_
  rw [Bool.eq_iff_iff, List.contains_iff_mem, List.contains_iff_mem]

/-- Sets of joins are equal if and only if their choices are. -/
theorem choiceOf_eq {joins : List Predicate} {s t : JoinSet} (hs : ∀ p ∈ s.members, p ∈ joins)
    (ht : ∀ p ∈ t.members, p ∈ joins) : choiceOf joins s = choiceOf joins t ↔ s == t := by
  rw [choiceOf_eq_iff, JoinSet.beq_iff]
  refine ⟨fun h p => ⟨fun hp => ?_, fun hp => ?_⟩, fun h p _ => h p⟩
  · exact (h p (hs p hp)).mp hp
  · exact (h p (ht p hp)).mpr hp

/-- The plans of some sets, by their choices. -/
def ChoiceTree.ofPlans (joins : List Predicate) (found : List (JoinSet × Plan)) :
    ChoiceTree Plan :=
  found.foldl (fun tree (set, plan) => tree.insert plan (choiceOf joins set)) .empty

end JoinPlanner
