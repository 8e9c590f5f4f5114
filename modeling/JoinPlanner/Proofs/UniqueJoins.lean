import JoinPlanner.Planner.UniqueJoins
import JoinPlanner.Proofs.LeftDeep

/-!
# JoinPlanner — one join for both orientations

The predicates of a query are gone through once. A predicate is kept if none of the kept
ones is the same join; the orientations that are known are exactly those of kept joins.

* `has_put_both`    — a kept join is known in both orientations.
* `Collects`        — what is kept of the predicates that were gone through.
* `collects_ofList` — the joins of a query are distinct, and all its predicates have one.
* `joins_ofList_of_distinct` — predicates that are distinct joins already are all kept.
* `joins_ofList_map` — predicates under other names are kept alike.
* `representative?_eq_some_iff` — an orientation is looked up as the join that it belongs to.
-/

namespace JoinPlanner.UniqueJoins

/-- A predicate is known after a join was kept if it is that join or was known before. -/
theorem has_put_both (known : Association Predicate Predicate) (p q : Predicate) :
    ((known.put p p).put p.flipped p).has q = true ↔ q.SameJoin p ∨ known.has q = true := by
  rw [Association.has, Association.get?_put, Association.get?_put]
  by_cases hFlipped : q = p.flipped
  · subst hFlipped
    simp [Predicate.SameJoin]
  · by_cases hSame : q = p
    · subst hSame
      by_cases hSelf : q.flipped = q <;> simp [hSelf, Predicate.SameJoin]
    · have hNot : ¬ q.SameJoin p := fun h => h.elim hSame hFlipped
      simp [Ne.symm hFlipped, Ne.symm hSame, hNot, Association.has]

/-- What is kept of the predicates that were gone through. -/
structure Collects (unique : UniqueJoins) (done : List Predicate) : Prop where
  distinct : DistinctJoins unique.joins
  subset : ∀ p ∈ unique.joins, p ∈ done
  cover : ∀ p ∈ done, ∃ q ∈ unique.joins, p.SameJoin q
  known : ∀ p, unique.representatives.has p = true ↔ ∃ q ∈ unique.joins, p.SameJoin q

theorem collects_empty : Collects empty [] := by
  refine ⟨List.Pairwise.nil, ?_, ?_, ?_⟩
  · intro p hp
    exact hp
  · intro p hp
    cases hp
  · intro p
    simp [empty, Association.has, Association.get?]

theorem Collects.add {unique : UniqueJoins} {done : List Predicate} (h : unique.Collects done)
    (p : Predicate) : (unique.add p).Collects (done ++ [p]) := by
  by_cases hKnown : unique.representatives.has p = true
  · -- the predicate repeats a join
    obtain ⟨q, hq, hSame⟩ := (h.known p).mp hKnown
    rw [UniqueJoins.add, if_pos hKnown]
    refine ⟨h.distinct, ?_, ?_, h.known⟩
    · intro r hr
      exact List.mem_append_left _ (h.subset r hr)
    · intro r hr
      rcases List.mem_append.mp hr with hr | hr
      · exact h.cover r hr
      · obtain rfl := List.mem_singleton.mp hr
        exact ⟨q, hq, hSame⟩
  · have hNew : ∀ q ∈ unique.joins, ¬ p.SameJoin q :=
      fun q hq hSame => hKnown ((h.known p).mpr ⟨q, hq, hSame⟩)
    rw [UniqueJoins.add, if_neg hKnown]
    refine ⟨?_, ?_, ?_, ?_⟩
    · refine List.pairwise_append.mpr ⟨h.distinct, List.pairwise_singleton _ _, ?_⟩
      intro q hq r hr
      obtain rfl := List.mem_singleton.mp hr
      exact hNew q hq
    · intro r hr
      rcases List.mem_append.mp hr with hr | hr
      · exact List.mem_append_left _ (h.subset r hr)
      · exact List.mem_append_right _ hr
    · intro r hr
      rcases List.mem_append.mp hr with hr | hr
      · obtain ⟨q, hq, hSame⟩ := h.cover r hr
        exact ⟨q, List.mem_append_left _ hq, hSame⟩
      · exact ⟨r, List.mem_append_right _ hr, Predicate.SameJoin.refl r⟩
    · intro r
      rw [has_put_both, h.known]
      constructor
      · rintro (hSame | ⟨q, hq, hSame⟩)
        · exact ⟨p, List.mem_append_right _ (List.mem_singleton_self p), hSame⟩
        · exact ⟨q, List.mem_append_left _ hq, hSame⟩
      · rintro ⟨q, hq, hSame⟩
        rcases List.mem_append.mp hq with hq | hq
        · exact Or.inr ⟨q, hq, hSame⟩
        · obtain rfl := List.mem_singleton.mp hq
          exact Or.inl hSame

theorem collects_foldl {done rest : List Predicate} {unique : UniqueJoins}
    (h : unique.Collects done) : (rest.foldl UniqueJoins.add unique).Collects (done ++ rest) := by
  induction rest generalizing done unique with
  | nil => simpa using h
  | cons p rest ih =>
    rw [List.foldl_cons, List.append_cons]
    exact ih (h.add p)

/-- The joins of a query are distinct, and each of its predicates is one of them. -/
theorem collects_ofList (predicates : List Predicate) :
    (ofList predicates).Collects predicates :=
  collects_foldl collects_empty

/-- Distinct joins are all kept, in their order. -/
theorem joins_ofList_of_distinct {predicates : List Predicate} (h : DistinctJoins predicates) :
    (ofList predicates).joins = predicates := by
  -- the induction is on the rest of the predicates, after any beginning that was kept
  have hRest : ∀ rest done (unique : UniqueJoins), unique.Collects done → unique.joins = done →
      DistinctJoins (done ++ rest) → (rest.foldl add unique).joins = done ++ rest := by
    intro rest
    induction rest with
    | nil =>
      intro done unique _ hJoins _
      rw [List.append_nil]
      exact hJoins
    | cons p rest ih =>
      intro done unique hCollects hJoins hDistinct
      have hNew : ¬ unique.representatives.has p = true := by
        intro hKnown
        obtain ⟨q, hq, hSame⟩ := (hCollects.known p).mp hKnown
        exact (List.pairwise_append.mp hDistinct).2.2 q (hJoins ▸ hq) p List.mem_cons_self hSame
      rw [List.append_cons] at hDistinct ⊢
      refine ih (done ++ [p]) (unique.add p) (hCollects.add p) ?_ hDistinct
      rw [add, if_neg hNew, hJoins]
  exact hRest predicates [] empty collects_empty rfl h

/-- Predicates that are told apart under other names are kept alike. -/
theorem joins_ofList_map {predicates : List Predicate} {other : Predicate → Predicate}
    (hSame : ∀ p ∈ predicates, ∀ q ∈ predicates, (other p).SameJoin (other q) ↔ p.SameJoin q) :
    (ofList (predicates.map other)).joins = (ofList predicates).joins.map other := by
  -- the induction is on the rest of the predicates, after any beginning
  have hRest : ∀ rest done (unique unique' : UniqueJoins), unique.Collects done →
      unique'.Collects (done.map other) → unique'.joins = unique.joins.map other →
      predicates = done ++ rest →
      ((rest.map other).foldl add unique').joins = (rest.foldl add unique).joins.map other := by
    intro rest
    induction rest with
    | nil =>
      intro done unique unique' _ _ hJoins _
      exact hJoins
    | cons p rest ih =>
      intro done unique unique' hCollects hCollects' hJoins hSplit
      have hDone : ∀ q ∈ done, q ∈ predicates := fun q hq => hSplit ▸ List.mem_append_left _ hq
      have hp : p ∈ predicates := hSplit ▸ List.mem_append_right _ List.mem_cons_self
      have hKnown : unique'.representatives.has (other p) = true ↔
          unique.representatives.has p = true := by
        rw [hCollects'.known, hCollects.known, hJoins]
        simp only [List.mem_map, exists_exists_and_eq_and]
        exact exists_congr fun q => and_congr_right fun hq =>
          hSame p hp q (hDone q (hCollects.subset q hq))
      have hAdd : (unique'.add (other p)).joins = (unique.add p).joins.map other := by
        by_cases hHas : unique.representatives.has p = true
        · rw [add, add, if_pos hHas, if_pos (hKnown.mpr hHas), hJoins]
        · rw [add, add, if_neg hHas, if_neg (mt hKnown.mp hHas), hJoins, List.map_append]
          rfl
      have hCollected := hCollects'.add (other p)
      rw [← List.map_singleton, ← List.map_append] at hCollected
      exact ih (done ++ [p]) _ _ (hCollects.add p) hCollected hAdd (by simp [hSplit])
  exact hRest predicates [] empty empty collects_empty collects_empty rfl rfl

-- ---------------------------------------------------------------------------
-- Representatives
-- ---------------------------------------------------------------------------

/-- Every orientation that is known is looked up as a kept join. -/
def Represents (unique : UniqueJoins) : Prop :=
  ∀ q p, unique.representative? q = some p → p ∈ unique.joins ∧ q.SameJoin p

theorem Represents.add {unique : UniqueJoins} (h : unique.Represents) (p : Predicate) :
    (unique.add p).Represents := by
  rw [UniqueJoins.add]
  split
  · exact h
  · intro q r hGet
    have hNew : p ∈ unique.joins ++ [p] := List.mem_append_right _ (List.mem_singleton_self p)
    simp only [representative?, Association.get?_put, beq_iff_eq] at hGet
    split at hGet
    · rename_i hFlipped
      obtain rfl := Option.some.inj hGet
      exact ⟨hNew, Or.inr hFlipped.symm⟩
    · split at hGet
      · rename_i hSame
        obtain rfl := Option.some.inj hGet
        exact ⟨hNew, Or.inl hSame.symm⟩
      · obtain ⟨hMem, hSame⟩ := h q r hGet
        exact ⟨List.mem_append_left _ hMem, hSame⟩

theorem represents_foldl {rest : List Predicate} {unique : UniqueJoins}
    (h : unique.Represents) : (rest.foldl UniqueJoins.add unique).Represents := by
  induction rest generalizing unique with
  | nil => exact h
  | cons p rest ih => exact ih (h.add p)

theorem represents_ofList (predicates : List Predicate) : (ofList predicates).Represents :=
  represents_foldl fun q p h => by cases h

/-- An orientation is looked up as the join that it belongs to. -/
theorem representative?_eq_some_iff {predicates : List Predicate} {p q : Predicate} :
    (ofList predicates).representative? q = some p ↔
      p ∈ (ofList predicates).joins ∧ q.SameJoin p := by
  have hCollects := collects_ofList predicates
  refine ⟨represents_ofList predicates q p, ?_⟩
  rintro ⟨hp, hSame⟩
  obtain ⟨r, hr⟩ := Option.isSome_iff_exists.mp ((hCollects.known q).mpr ⟨p, hp, hSame⟩)
  obtain ⟨hMem, hSame'⟩ := represents_ofList predicates q r hr
  rw [hCollects.distinct.eq_of_sameJoin hp hMem (hSame.symm.trans hSame')]
  exact hr

end JoinPlanner.UniqueJoins
