import JoinPlanner.Explanation
import Mathlib.Logic.Relation

/-!
# JoinPlanner — the steps of an order and what links them

The joins of an order are its steps, by their numbers. An order need not be left-deep: a step
can have no table in common with any step before, and a later one can bring such parts
together. So the steps up to some number fall into groups that grow and are merged.

* `ReadAt`        — a table is on a side of a step.
* `LinkedIn`      — two of the first steps are linked by shared tables through these steps.
* `Joined`        — what a step joins: the steps that it is linked with, once it is there.
* `LinkedIn.before` — the next step links two steps anew only through a step that it meets.
* `LinkedIn.upTo` — steps are linked through those up to the latest one of their group.
* `joined_iff`    — a step joins itself and the groups of the earlier steps it shares tables with.
* `ComesBack`     — a step joins one that an extension of another group has left behind.
-/

namespace JoinPlanner

/-- The table is on a side of the step. -/
def ReadAt (order : List Predicate) (i : Nat) (table : Option String) : Prop :=
  ∃ p, order[i]? = some p ∧ table ∈ Placement.sides p

/-- Two of the first steps have a table in common. -/
def Meets (order : List Predicate) (n i j : Nat) : Prop :=
  i < n ∧ j < n ∧ ∃ table, ReadAt order i table ∧ ReadAt order j table

/-- Two steps are linked by shared tables through the first steps. -/
def LinkedIn (order : List Predicate) (n : Nat) : Nat → Nat → Prop :=
  Relation.ReflTransGen (Meets order n)

/-- The steps that a step joins: those linked with it through the steps up to itself. -/
def Joined (order : List Predicate) (i j : Nat) : Prop := LinkedIn order (i + 1) i j

variable {order : List Predicate} {n i j k : Nat}

instance (order : List Predicate) (n : Nat) : Std.Symm (Meets order n) where
  symm := fun _ _ ⟨hi, hj, table, hRead, hRead'⟩ => ⟨hj, hi, table, hRead', hRead⟩

theorem LinkedIn.symm (h : LinkedIn order n i j) : LinkedIn order n j i :=
  symm_of (Relation.ReflTransGen (Meets order n)) h

theorem LinkedIn.mono {m : Nat} (hle : n ≤ m) (h : LinkedIn order n i j) : LinkedIn order m i j :=
  Relation.ReflTransGen.mono (fun _ _ ⟨hi, hj, hShare⟩ => ⟨by omega, by omega, hShare⟩) _ _ h

/-- Only the first steps are linked with others. -/
theorem LinkedIn.lt (h : LinkedIn order n i j) (hj : j < n) : i < n := by
  rcases Relation.ReflTransGen.cases_head h with rfl | ⟨k, hMeets, -⟩
  · exact hj
  · exact hMeets.1

/-- Two of the first steps that share a table are linked. -/
theorem linkedIn_of_readAt {table : Option String} (hi : i < n) (hj : j < n)
    (hRead : ReadAt order i table) (hRead' : ReadAt order j table) : LinkedIn order n i j :=
  .single ⟨hi, hj, table, hRead, hRead'⟩

/-- A step is linked with an earlier one as it was before, or through one that the next step
meets. -/
theorem LinkedIn.before (h : LinkedIn order (n + 1) i j) (hj : j < n) :
    LinkedIn order n i j ∨ ∃ k < n, Meets order (n + 1) n k ∧ LinkedIn order n k j := by
  -- from the end of the chain: it is at the next step when it first leaves the earlier ones
  induction h using Relation.ReflTransGen.head_induction_on with
  | refl => exact Or.inl .refl
  | @head i k hMeets _ ih =>
    rcases ih with hBefore | hThrough
    · have hk : k < n := hBefore.lt hj
      by_cases hi : i < n
      · exact Or.inl (.head ⟨hi, hk, hMeets.2.2⟩ hBefore)
      · have hLast : i = n := by
          have := hMeets.1
          omega
        exact Or.inr ⟨k, hk, hLast ▸ hMeets, hBefore⟩
    · exact Or.inr hThrough

/-- The steps of a group are linked through those up to the latest one. -/
theorem LinkedIn.upTo {latest : Nat} (h : LinkedIn order n i j)
    (hLatest : ∀ k, LinkedIn order n k j → k ≤ latest) : LinkedIn order (latest + 1) i j := by
  induction h using Relation.ReflTransGen.head_induction_on with
  | refl => exact .refl
  | @head i k hMeets hRest ih =>
    have hi := hLatest i (.head hMeets hRest)
    have hk := hLatest k hRest
    exact .head ⟨by omega, by omega, hMeets.2.2⟩ ih

-- ---------------------------------------------------------------------------
-- What a step joins
-- ---------------------------------------------------------------------------

/-- A step joins no later one. -/
theorem Joined.le (h : Joined order i j) : j ≤ i := by
  have := h.symm.lt (Nat.lt_succ_self i)
  omega

/-- Steps that share a table with something joined are joined. -/
theorem Joined.of_readAt {table : Option String} (h : Joined order i j)
    (hRead : ReadAt order j table) (hRead' : ReadAt order k table) (hk : k ≤ i) :
    Joined order i k := by
  have hj := h.le
  exact h.trans (linkedIn_of_readAt (by omega) (by omega) hRead hRead')

/-- The earlier step is of a group that the step shares a table with. -/
def Reaches (order : List Predicate) (n j : Nat) : Prop :=
  ∃ k < n, (∃ table, ReadAt order n table ∧ ReadAt order k table) ∧ LinkedIn order n k j

theorem Reaches.lt (h : Reaches order n j) : j < n := by
  obtain ⟨k, hk, -, hLink⟩ := h
  exact hLink.symm.lt hk

/-- Besides itself, a step joins the groups that it shares tables with. -/
theorem joined_iff : Joined order n j ↔ j = n ∨ Reaches order n j := by
  constructor
  · intro h
    rcases Nat.eq_or_lt_of_le h.le with rfl | hj
    · exact Or.inl rfl
    · rcases LinkedIn.before h hj with hBefore | ⟨k, hk, hMeets, hLink⟩
      · have := hBefore.lt hj
        omega
      · exact Or.inr ⟨k, hk, hMeets.2.2, hLink⟩
  · rintro (rfl | ⟨k, hk, ⟨table, hRead, hRead'⟩, hLink⟩)
    · exact .refl
    · exact (linkedIn_of_readAt (by omega) (by omega) hRead hRead').trans
        (hLink.mono (Nat.le_succ n))

-- ---------------------------------------------------------------------------
-- Groups that are left behind
-- ---------------------------------------------------------------------------

/-- The step shares a table with an earlier one. -/
def Extends (order : List Predicate) (m : Nat) : Prop :=
  ∃ j < m, ∃ table, ReadAt order m table ∧ ReadAt order j table

/-- The step extends a group to which the earlier step does not belong. -/
def LeavesBehind (order : List Predicate) (m k : Nat) : Prop :=
  k < m ∧ Extends order m ∧ ¬ Joined order m k

/-- The step joins one that an earlier step has left behind. -/
def ComesBack (order : List Predicate) (i : Nat) : Prop :=
  ∃ m k, m < i ∧ LeavesBehind order m k ∧ Joined order i k

end JoinPlanner
