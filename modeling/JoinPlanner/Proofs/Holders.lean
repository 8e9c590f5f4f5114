import JoinPlanner.Proofs.LinkedSteps
import JoinPlanner.Proofs.PlanTree

/-!
# JoinPlanner — the steps that hold the tables

While the tree of an order is built, every table that was read is held by a step, and a join
takes as its parts the steps that hold its sides. In an order that is not left-deep several
steps hold tables. An extension takes over all of them, also those of groups that it leaves
behind; the tables of all other groups are held by the latest step of their group.

* `place_eq`      — placing a join is gathering its parts and adding it over them.
* `Latest`        — the latest step of a group.
* `Tracks`        — what holds which table, after the first steps of any order.
* `Tracks.add`    — one more step keeps this.
* `Tracks.latest` — a join that does not come back has the latest steps of its groups as parts.
-/

namespace JoinPlanner

open Outcome PlannerError

/-- The step is the latest of the first ones that are linked with another step. -/
structure Latest (order : List Predicate) (n i latest : Nat) : Prop where
  linked : LinkedIn order n latest i
  le : ∀ j, LinkedIn order n j i → j ≤ latest

/-- The latest step of a group joins this group. -/
theorem Latest.joined_iff {order : List Predicate} {n i latest j : Nat}
    (h : Latest order n i latest) (hi : i < n) :
    Joined order latest j ↔ LinkedIn order n j i := by
  have hLatest := h.linked.lt hi
  constructor
  · intro hJoined
    exact (hJoined.symm.mono (by omega)).trans h.linked
  · intro hLinked
    refine (LinkedIn.upTo (hLinked.trans h.linked.symm) fun k hk => ?_).symm
    exact h.le k (hk.trans h.linked)

namespace Placement

-- ---------------------------------------------------------------------------
-- One more join
-- ---------------------------------------------------------------------------

/-- The placement with one more join over its parts. -/
def add (placed : Placement) (p : Predicate) (cost : Cost) (card : Cardinality) (parts : Parts) :
    Placement :=
  let children := if p.isSubplan then parts.children ++ [.subplan] else parts.children
  let number := placed.steps.length
  let held := (sides p).foldl (fun acc table => acc.put table number) placed.holders
  { steps := placed.steps ++ [.join p cost card children]
    holders := if parts.joined.isEmpty then held else held.map fun e => (e.1, number) }

variable {scans : ScanEstimates} {placed : Placement} {parts : Parts} {p : Predicate}
  {cost : Cost} {card : Cardinality}

theorem place_eq : place scans placed (p, cost, card) =
    (sides p).foldlM (addPart placed scans) ⟨[], []⟩ >>= fun parts =>
      .ok (placed.add p cost card parts) := rfl

theorem length_add :
    (placed.add p cost card parts).steps.length = placed.steps.length + 1 := by
  simp [add]

/-- The sides of a join are held by it from now on, and all tables if it reads a step. -/
theorem get?_holders_add (table : Option String) :
    (placed.add p cost card parts).holders.get? table =
      if table ∈ sides p then some placed.steps.length
      else if parts.joined = [] then placed.holders.get? table
      else (placed.holders.get? table).map fun _ => placed.steps.length := by
  show Association.get? (if parts.joined.isEmpty then _ else _) table = _
  by_cases hNone : parts.joined = []
  · simp only [hNone, List.isEmpty_nil, if_true, Association.get?_foldl_put]
  · simp only [List.isEmpty_iff, hNone, if_false, Association.get?_map_const,
      Association.get?_foldl_put]
    split <;> rfl

-- ---------------------------------------------------------------------------
-- All steps so far
-- ---------------------------------------------------------------------------

variable {order : List Predicate} {n : Nat}

theorem readAt_iff {i : Nat} (hp : order[i]? = some p) {table : Option String} :
    ReadAt order i table ↔ table ∈ sides p := by
  simp [ReadAt, hp]

/-- What holds the tables of the first steps of any order. -/
structure Tracks (order : List Predicate) (n : Nat) (placed : Placement) : Prop where
  length : placed.steps.length = n
  steps : ∀ node ∈ placed.steps, node.isJoin = true
  unread : ∀ table, placed.holders.get? table = none ↔ ∀ i < n, ¬ ReadAt order i table
  /-- Nothing is held by a step before an extension. -/
  newest : ∀ m < n, Extends order m → ∀ table number,
    placed.holders.get? table = some number → m ≤ number
  /-- Unless a step was left behind, the latest one of its group holds its tables. -/
  held : ∀ table number i, placed.holders.get? table = some number → i < n →
    ReadAt order i table → (∀ m < n, ¬ LeavesBehind order m i) → Latest order n i number

theorem tracks_empty : Tracks order 0 empty where
  length := rfl
  steps := by simp [empty]
  unread := by simp [empty, Association.get?]
  newest := by simp
  held := by simp

/-- Every table that is held was read by a step. -/
theorem Tracks.exists_readAt (h : Tracks order n placed) {table : Option String} {number : Nat}
    (hHolder : placed.holders.get? table = some number) : ∃ k < n, ReadAt order k table := by
  by_contra hNone
  push Not at hNone
  rw [(h.unread table).mpr hNone] at hHolder
  cases hHolder

/-- Every table that was read by a step is held. -/
theorem Tracks.exists_holder (h : Tracks order n placed) {table : Option String} {k : Nat}
    (hk : k < n) (hRead : ReadAt order k table) :
    ∃ number, placed.holders.get? table = some number := by
  cases hHolder : placed.holders.get? table with
  | none => exact absurd hRead ((h.unread table).mp hHolder k hk)
  | some number => exact ⟨number, rfl⟩

/-- A join reads a step if and only if its step extends the steps before. -/
theorem Tracks.joined_ne_nil_iff (h : Tracks order n placed) (hp : order[n]? = some p)
    (hParts : Gathers scans placed (sides p) parts) : parts.joined ≠ [] ↔ Extends order n := by
  constructor
  · intro hSome
    obtain ⟨number, hNumber⟩ := List.exists_mem_of_ne_nil _ hSome
    obtain ⟨table, hSide, hHolder⟩ := (hParts.joined number).mp hNumber
    obtain ⟨j, hj, hRead⟩ := h.exists_readAt hHolder
    exact ⟨j, hj, table, (readAt_iff hp).mpr hSide, hRead⟩
  · rintro ⟨j, hj, table, hSide, hRead⟩
    obtain ⟨number, hHolder⟩ := h.exists_holder hj hRead
    exact List.ne_nil_of_mem
      ((hParts.joined number).mpr ⟨table, (readAt_iff hp).mp hSide, hHolder⟩)

/-- A step that reads none of the ones before links none of them. -/
theorem linkedIn_of_not_extends {i j : Nat} (hNew : ¬ Extends order n)
    (h : LinkedIn order (n + 1) i j) (hj : j < n) : LinkedIn order n i j := by
  rcases h.before hj with hBefore | ⟨k, hk, hMeets, -⟩
  · exact hBefore
  · exact absurd ⟨k, hk, hMeets.2.2⟩ hNew

/-- After one more step, the latest step of a group that was not left behind holds its tables. -/
theorem Tracks.held_add (h : Tracks order n placed) (hp : order[n]? = some p)
    (hParts : Gathers scans placed (sides p) parts) {table : Option String} {number i : Nat}
    (hHolder : (placed.add p cost card parts).holders.get? table = some number)
    (hi : i < n + 1) (hRead : ReadAt order i table)
    (hKept : ∀ m < n + 1, ¬ LeavesBehind order m i) : Latest order (n + 1) i number := by
  rw [get?_holders_add, h.length] at hHolder
  by_cases hExtends : Extends order n
  · -- the new step holds all tables, and it has left nothing behind in this group
    have hJoined := (h.joined_ne_nil_iff hp hParts).mpr hExtends
    have hNumber : n = number := by
      simp only [hJoined, if_false] at hHolder
      split at hHolder
      · exact Option.some.inj hHolder
      · obtain ⟨_, -, hSame⟩ := Option.map_eq_some_iff.mp hHolder
        exact hSame
    subst hNumber
    refine ⟨?_, fun j hj => ?_⟩
    · by_contra hUnlinked
      have hBefore : i ≠ n := fun hSame => hUnlinked (hSame ▸ .refl)
      exact hKept n (by omega) ⟨by omega, hExtends, hUnlinked⟩
    · have := hj.lt hi
      omega
  · -- the new step is a group of its own
    have hJoined := not_not.mp (mt (h.joined_ne_nil_iff hp hParts).mp hExtends)
    by_cases hSide : table ∈ sides p
    · rw [if_pos hSide] at hHolder
      have hNumber : n = number := Option.some.inj hHolder
      have hLast : i = n := by
        by_contra hOther
        exact hExtends ⟨i, by omega, table, (readAt_iff hp).mpr hSide, hRead⟩
      subst hNumber hLast
      refine ⟨.refl, fun j hj => ?_⟩
      have := hj.lt hi
      omega
    · rw [if_neg hSide, if_pos hJoined] at hHolder
      have hBefore : i < n := by
        by_contra hLater
        obtain rfl : i = n := by omega
        exact hSide ((readAt_iff hp).mp hRead)
      have hOld := h.held table number i hHolder hBefore hRead fun m hm => hKept m (by omega)
      exact ⟨hOld.linked.mono (by omega), fun j hj =>
        hOld.le j (linkedIn_of_not_extends hExtends hj hBefore)⟩

/-- One more step keeps track of the tables. -/
theorem Tracks.add (h : Tracks order n placed) (hp : order[n]? = some p)
    (hParts : Gathers scans placed (sides p) parts) :
    Tracks order (n + 1) (placed.add p cost card parts) where
  length := by rw [length_add, h.length]
  steps := by
    intro node hNode
    rcases List.mem_append.mp hNode with hOld | hNew
    · exact h.steps node hOld
    · rw [List.mem_singleton.mp hNew]
      rfl
  unread := by
    intro table
    rw [get?_holders_add, Nat.forall_lt_succ_right, readAt_iff hp, ← h.unread]
    by_cases hSide : table ∈ sides p
    · simp [hSide]
    · by_cases hNone : parts.joined = [] <;> simp [hSide, hNone]
  newest := by
    intro m hm hExtends table number hHolder
    rw [get?_holders_add, h.length] at hHolder
    split at hHolder
    · cases hHolder
      omega
    · split at hHolder
      · rename_i hNone
        have hOther : m ≠ n := by
          rintro rfl
          exact (h.joined_ne_nil_iff hp hParts).mpr hExtends hNone
        exact h.newest m (by omega) hExtends table number hHolder
      · obtain ⟨_, -, rfl⟩ := Option.map_eq_some_iff.mp hHolder
        omega
  held := fun _ _ _ hHolder hi hRead hKept => h.held_add hp hParts hHolder hi hRead hKept

/-- A step that does not come back reads the latest steps of the groups it has tables of. -/
theorem Tracks.latest (h : Tracks order n placed) (hp : order[n]? = some p)
    (hStays : ¬ ComesBack order n) {table : Option String} {number k : Nat}
    (hSide : table ∈ sides p) (hHolder : placed.holders.get? table = some number) (hk : k < n)
    (hRead : ReadAt order k table) : Latest order n k number := by
  refine h.held table number k hHolder hk hRead fun m hm hLeft => hStays ⟨m, k, hm, hLeft, ?_⟩
  exact Joined.of_readAt .refl ((readAt_iff hp).mpr hSide) hRead (by omega)

end Placement

end JoinPlanner
