import JoinPlanner.Planner.Basic
import JoinPlanner.Proofs.Lookup
import JoinPlanner.Proofs.UniqueJoins
import Mathlib.Data.List.Induction

/-!
# JoinPlanner — the first of several predicates for one join

Of the predicates that are the same join the first one is kept, whatever comes between them.
Everything else about unique joins follows the predicates one by one: each of them either is
kept, and then makes its two orientations known, or draws a warning.

* `firstsOf`, `repeatsOf`   — the predicates whose joins are new, and all others.
* `joins_ofList_eq_firstsOf`, `dropped_ofList_eq_repeatsOf` — these are kept and left out.
* `representative?_append`  — what an orientation stands for is never changed again.
* `KeepsFirsts`, `keepsFirsts_ofList` — the statement about all lists of predicates.
-/

namespace JoinPlanner

-- ---------------------------------------------------------------------------
-- Keys
-- ---------------------------------------------------------------------------

namespace Association

variable {κ ν : Type} [BEq κ] [LawfulBEq κ] {entries : Association κ ν} {key other : κ}

theorem mem_keys_iff_has : key ∈ entries.map Prod.fst ↔ entries.has key = true := by
  rw [has, Option.isSome_iff_ne_none, ne_eq, get?_eq_none_iff]
  simp

/-- Setting the value of a key adds no second entry for it. -/
theorem nodup_keys_put (h : (entries.map Prod.fst).Nodup) (key : κ) (value : ν) :
    ((entries.put key value).map Prod.fst).Nodup := by
  induction entries with
  | nil => exact List.pairwise_singleton _ key
  | cons e rest ih =>
    obtain ⟨hFirst, hRest⟩ := List.nodup_cons.mp h
    rw [put]
    split
    · exact List.nodup_cons.mpr ⟨hFirst, hRest⟩
    · rename_i hOther
      refine List.nodup_cons.mpr ⟨fun hMem => ?_, ih hRest⟩
      rw [mem_keys_iff_has, has, get?_put] at hMem
      split at hMem
      · rename_i hSame
        exact hOther (by simpa using (eq_of_beq hSame).symm)
      · exact hFirst (mem_keys_iff_has.mpr hMem)

end Association

namespace UniqueJoins

-- ---------------------------------------------------------------------------
-- First predicates
-- ---------------------------------------------------------------------------

/-- A predicate is the same join as one of those that have been gone through. -/
def Repeats (done : List Predicate) (p : Predicate) : Prop := ∃ q ∈ done, p.SameJoin q

instance (done : List Predicate) (p : Predicate) : Decidable (Repeats done p) :=
  inferInstanceAs (Decidable (∃ q ∈ done, p.SameJoin q))

/-- The predicates that repeat none of those before them, in order. -/
def firstsOf (predicates : List Predicate) : List Predicate :=
  (predicates.zipIdx.filter fun (p, i) => ¬ Repeats (predicates.take i) p).map Prod.fst

/-- The predicates that repeat one of those before them, in order. -/
def repeatsOf (predicates : List Predicate) : List Predicate :=
  (predicates.zipIdx.filter fun (p, i) => Repeats (predicates.take i) p).map Prod.fst

/-- A selection by what comes before a predicate goes on with the next one. -/
theorem filter_zipIdx_concat (test : List Predicate → Predicate → Bool) (done : List Predicate)
    (p : Predicate) : ((done ++ [p]).zipIdx.filter fun (q, i) => test ((done ++ [p]).take i) q) =
      (done.zipIdx.filter fun (q, i) => test (done.take i) q) ++
        if test done p then [(p, done.length)] else [] := by
  have hDone : ∀ e ∈ done.zipIdx, test ((done ++ [p]).take e.2) e.1 = test (done.take e.2) e.1 := by
    intro e he
    have hLt := (List.mem_zipIdx' he).1
    rw [List.take_append_of_le_length (Nat.le_of_lt hLt)]
  rw [List.zipIdx_append, List.filter_append, List.filter_congr hDone, List.zipIdx_singleton]
  simp only [Nat.zero_add, List.filter_singleton, List.take_left, Bool.cond_eq_ite]

theorem firstsOf_concat (done : List Predicate) (p : Predicate) : firstsOf (done ++ [p]) =
    firstsOf done ++ if Repeats done p then [] else [p] := by
  unfold firstsOf
  rw [filter_zipIdx_concat fun before q => ¬ Repeats before q, List.map_append]
  by_cases hRepeats : Repeats done p <;> simp [hRepeats]

theorem repeatsOf_concat (done : List Predicate) (p : Predicate) : repeatsOf (done ++ [p]) =
    repeatsOf done ++ if Repeats done p then [p] else [] := by
  unfold repeatsOf
  rw [filter_zipIdx_concat fun before q => Repeats before q, List.map_append]
  by_cases hRepeats : Repeats done p <;> simp [hRepeats]

-- ---------------------------------------------------------------------------
-- One predicate after the other
-- ---------------------------------------------------------------------------

theorem ofList_concat (done : List Predicate) (p : Predicate) :
    ofList (done ++ [p]) = (ofList done).add p := by
  simp [ofList]

/-- An orientation is known if it repeats a predicate, be that one kept or left out. -/
theorem known_iff_repeats (done : List Predicate) (p : Predicate) :
    (ofList done).representatives.has p = true ↔ Repeats done p := by
  have hCollects := collects_ofList done
  rw [hCollects.known]
  constructor
  · rintro ⟨q, hq, hSame⟩
    exact ⟨q, hCollects.subset q hq, hSame⟩
  · rintro ⟨q, hq, hSame⟩
    obtain ⟨r, hr, hSame'⟩ := hCollects.cover q hq
    exact ⟨r, hr, hSame.trans hSame'⟩

/-- The kept predicates are the first ones of their joins. -/
theorem joins_ofList_eq_firstsOf (predicates : List Predicate) :
    (ofList predicates).joins = firstsOf predicates := by
  induction predicates using List.reverseRecOn with
  | nil => rfl
  | append_singleton done p ih =>
    have hKnown := known_iff_repeats done p
    rw [ofList_concat, firstsOf_concat, add, ← ih]
    split
    · rename_i hHas
      rw [if_pos (hKnown.mp hHas), List.append_nil]
    · rename_i hHas
      rw [if_neg (mt hKnown.mpr hHas)]

/-- The others are left out. -/
theorem dropped_ofList_eq_repeatsOf (predicates : List Predicate) :
    (ofList predicates).dropped = repeatsOf predicates := by
  induction predicates using List.reverseRecOn with
  | nil => rfl
  | append_singleton done p ih =>
    have hKnown := known_iff_repeats done p
    rw [ofList_concat, repeatsOf_concat, add, ← ih]
    split
    · rename_i hHas
      rw [if_pos (hKnown.mp hHas)]
    · rename_i hHas
      rw [if_neg (mt hKnown.mpr hHas), List.append_nil]

theorem nodup_keys_ofList (predicates : List Predicate) :
    ((ofList predicates).representatives.map Prod.fst).Nodup := by
  induction predicates using List.reverseRecOn with
  | nil => exact List.nodup_nil
  | append_singleton done p ih =>
    rw [ofList_concat, add]
    split
    · exact ih
    · exact Association.nodup_keys_put (Association.nodup_keys_put ih p p) p.flipped p

-- ---------------------------------------------------------------------------
-- Longer lists
-- ---------------------------------------------------------------------------

/-- Predicates that follow displace no join. -/
theorem mem_joins_append {before after : List Predicate} {p : Predicate}
    (h : p ∈ (ofList before).joins) : p ∈ (ofList (before ++ after)).joins := by
  induction after using List.reverseRecOn with
  | nil => rwa [List.append_nil]
  | append_singleton after q ih =>
    rw [joins_ofList_eq_firstsOf] at ih ⊢
    rw [← List.append_assoc, firstsOf_concat]
    exact List.mem_append_left _ ih

/-- What an orientation stands for is never changed again. -/
theorem representative?_append {before after : List Predicate} {p q : Predicate}
    (h : (ofList before).representative? q = some p) :
    (ofList (before ++ after)).representative? q = some p := by
  rw [representative?_eq_some_iff] at h ⊢
  exact ⟨mem_joins_append h.1, h.2⟩

-- ---------------------------------------------------------------------------
-- The statement
-- ---------------------------------------------------------------------------

/-- What is kept of a list of predicates, and what is known of their orientations. -/
structure KeepsFirsts (predicates : List Predicate) (unique : UniqueJoins) : Prop where
  joins : unique.joins = firstsOf predicates
  /-- None of the joins is another one, in either orientation. -/
  distinct : DistinctJoins unique.joins
  cover : ∀ p ∈ predicates, ∃ q ∈ unique.joins, p = q ∨ p = q.flipped
  /-- A planner for the predicates warns of each one that is left out. -/
  warnings : ∀ fraction verbose, (Planner.create predicates fraction verbose).events =
    (repeatsOf predicates).map fun p => .warning (.duplicateJoin p)
  /-- There is one entry for each orientation of a join, and no other. -/
  nodup : (unique.representatives.map Prod.fst).Nodup
  keys : ∀ q, q ∈ unique.representatives.map Prod.fst ↔
    ∃ p ∈ unique.joins, q = p ∨ q = p.flipped
  maps : ∀ p ∈ unique.joins,
    unique.representative? p = some p ∧ unique.representative? p.flipped = some p
  /-- What an orientation stands for after some predicates, it stands for after all of them. -/
  kept : ∀ before after, predicates = before ++ after → ∀ q p,
    (ofList before).representative? q = some p → unique.representative? q = some p

/-- The first predicates of all joins are kept, and both orientations of each stand for it. -/
theorem keepsFirsts_ofList (predicates : List Predicate) :
    KeepsFirsts predicates (ofList predicates) := by
  have hCollects := collects_ofList predicates
  refine {
    joins := joins_ofList_eq_firstsOf predicates
    distinct := hCollects.distinct
    cover := hCollects.cover
    warnings := fun fraction verbose => ?_
    nodup := nodup_keys_ofList predicates
    keys := fun q => ?_
    maps := fun p hp => ?_
    kept := fun before after hSplit q p hBefore => ?_ }
  · show (ofList predicates).warnings = _
    rw [warnings, dropped_ofList_eq_repeatsOf]
  · rw [Association.mem_keys_iff_has]
    exact hCollects.known q
  · rw [representative?_eq_some_iff, representative?_eq_some_iff]
    exact ⟨⟨hp, .refl p⟩, hp, Or.inr rfl⟩
  · rw [hSplit]
    exact representative?_append hBefore

end UniqueJoins

end JoinPlanner
