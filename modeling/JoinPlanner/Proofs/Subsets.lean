import JoinPlanner.Subsets
import Mathlib.Data.Finset.Card
import Mathlib.Data.List.Nodup
import Mathlib.Data.Nat.Choose.Basic

/-!
# JoinPlanner — the enumerated subsets

The sublists of a list without repetitions stand for its subsets. Those of one length are listed
in the lexicographic order of their positions, each once; one length after another, each subset
comes after all that it contains.

* `mem_subsetsOf`  — the enumerated lists are the sublists of the given length.
* `exists_sublist` — every set of members of a list is that of one of its sublists.
* `eq_of_sublist`  — sublists without repetitions are told apart by their members.
* `length_subsetsOf`, `pairwise_lt_subsetsOf` — how many there are, and their order.
* `ListsSubsets`, `listsSubsets`, `exists_listsSubsets` — the subsets of one size.
* `subsetsBySize`, `VisitsSubsets`, `visitsSubsets` — all of them that are not empty, smaller
  ones first.
-/

namespace JoinPlanner

variable {α : Type}

theorem mem_subsetsOf {size : Nat} {items members : List α} :
    members ∈ subsetsOf size items ↔ members.Sublist items ∧ members.length = size := by
  induction items generalizing size members with
  | nil =>
    cases size with
    | zero => simp [subsetsOf]
    | succ size =>
      constructor
      · intro h
        cases h
      · rintro ⟨hSublist, hLength⟩
        rw [List.sublist_nil.mp hSublist] at hLength
        cases hLength
  | cons x rest ih =>
    cases size with
    | zero =>
      rw [subsetsOf, List.mem_singleton, List.length_eq_zero_iff]
      constructor
      · rintro rfl
        exact ⟨List.nil_sublist _, rfl⟩
      · rintro ⟨-, h⟩
        exact h
    | succ size =>
      rw [subsetsOf_cons, List.mem_append, List.mem_map, List.sublist_cons_iff, ih]
      constructor
      · rintro (⟨taken, hTaken, rfl⟩ | ⟨hSublist, hLength⟩)
        · obtain ⟨hSublist, hLength⟩ := ih.mp hTaken
          exact ⟨Or.inr ⟨taken, rfl, hSublist⟩, by simp [hLength]⟩
        · exact ⟨Or.inl hSublist, hLength⟩
      · rintro ⟨hSublist | ⟨taken, rfl, hSublist⟩, hLength⟩
        · exact Or.inr ⟨hSublist, hLength⟩
        · exact Or.inl ⟨taken, ih.mpr ⟨hSublist, Nat.succ.inj hLength⟩, rfl⟩

/-- The sublist with the given members of a list. -/
theorem exists_sublist [DecidableEq α] {items members : List α} (h : ∀ x ∈ members, x ∈ items) :
    ∃ chosen : List α, chosen.Sublist items ∧ ∀ x, x ∈ chosen ↔ x ∈ members := by
  refine ⟨items.filter fun x => decide (x ∈ members), List.filter_sublist, fun x => ?_⟩
  rw [List.mem_filter, decide_eq_true_eq]
  constructor
  · rintro ⟨-, hx⟩
    exact hx
  · intro hx
    exact ⟨h x hx, hx⟩

/-- A sublist of a list without repetitions takes all occurrences of its members. -/
theorem filter_mem_of_sublist [DecidableEq α] {items members : List α} (hNodup : items.Nodup)
    (h : members.Sublist items) : items.filter (fun x => decide (x ∈ members)) = members := by
  induction h with
  | slnil => rfl
  | @cons taken rest x hSublist ih =>
    obtain ⟨hx, hRest⟩ := List.nodup_cons.mp hNodup
    have hNot : x ∉ taken := fun hMem => hx (hSublist.subset hMem)
    rw [List.filter_cons_of_neg (by simpa using hNot), ih hRest]
  | @cons_cons taken rest x hSublist ih =>
    obtain ⟨hx, hRest⟩ := List.nodup_cons.mp hNodup
    have hSame : rest.filter (fun y => decide (y ∈ x :: taken)) =
        rest.filter (fun y => decide (y ∈ taken)) := by
      refine List.filter_congr fun y hy => ?_
      have hNe : y ≠ x := fun hEq => hx (hEq ▸ hy)
      simp [hNe]
    rw [List.filter_cons_of_pos (by simp), hSame, ih hRest]

theorem eq_of_sublist [DecidableEq α] {items xs ys : List α} (hNodup : items.Nodup)
    (hxs : xs.Sublist items) (hys : ys.Sublist items) (h : ∀ x, x ∈ xs ↔ x ∈ ys) : xs = ys := by
  rw [← filter_mem_of_sublist hNodup hxs, ← filter_mem_of_sublist hNodup hys]
  refine List.filter_congr fun x _ => ?_
  rw [decide_eq_decide]
  exact h x

theorem subsetsOf_map {β : Type} (f : α → β) (size : Nat) (items : List α) :
    subsetsOf size (items.map f) = (subsetsOf size items).map (List.map f) := by
  induction items generalizing size with
  | nil => cases size <;> rfl
  | cons x rest ih =>
    cases size with
    | zero => rfl
    | succ size =>
      rw [List.map_cons, subsetsOf_cons, subsetsOf_cons, ih, ih, List.map_append, List.map_map,
        List.map_map]
      rfl

-- ---------------------------------------------------------------------------
-- Number and order
-- ---------------------------------------------------------------------------

theorem length_subsetsOf (size : Nat) (items : List α) :
    (subsetsOf size items).length = items.length.choose size := by
  induction items generalizing size with
  | nil => cases size <;> rfl
  | cons x rest ih =>
    cases size with
    | zero => exact (Nat.choose_zero_right _).symm
    | succ size =>
      rw [subsetsOf_cons, List.length_append, List.length_map, ih, ih, List.length_cons,
        Nat.choose_succ_succ]

/-- The sublists of increasing numbers come in lexicographic order. -/
theorem pairwise_lt_subsetsOf {positions : List Nat} (h : positions.Pairwise (· < ·))
    (size : Nat) : (subsetsOf size positions).Pairwise (· < ·) := by
  induction positions generalizing size with
  | nil => cases size <;> simp [subsetsOf]
  | cons x rest ih =>
    obtain ⟨hFirst, hRest⟩ := List.pairwise_cons.mp h
    cases size with
    | zero => exact List.pairwise_singleton _ _
    | succ size =>
      rw [subsetsOf_cons, List.pairwise_append, List.pairwise_map]
      refine ⟨(ih hRest size).imp List.cons_lt_cons_self.mpr, ih hRest (size + 1), ?_⟩
      -- a list that begins with the first number comes before one that begins with a later one
      intro xs hxs ys hys
      obtain ⟨taken, -, rfl⟩ := List.mem_map.mp hxs
      obtain ⟨hSublist, hLength⟩ := mem_subsetsOf.mp hys
      cases ys with
      | nil => cases hLength
      | cons y others => exact List.Lex.rel (hFirst y (hSublist.subset List.mem_cons_self))

section Positions

variable [DecidableEq α] {items members : List α}

theorem map_idxOf_self (hNodup : items.Nodup) :
    items.map items.idxOf = List.range items.length := by
  refine List.ext_getElem (by simp) fun i hi _ => ?_
  rw [List.getElem_map, List.getElem_range, hNodup.idxOf_getElem]

/-- A sublist takes its elements from increasing positions. -/
theorem pairwise_idxOf_of_sublist (hNodup : items.Nodup) (h : members.Sublist items) :
    (members.map items.idxOf).Pairwise (· < ·) := by
  have hPositions : (members.map items.idxOf).Sublist (List.range items.length) := by
    rw [← map_idxOf_self hNodup]
    exact h.map _
  exact List.pairwise_lt_range.sublist hPositions

/-- The sublists come in the lexicographic order of their positions. -/
theorem pairwise_idxOf_subsetsOf (hNodup : items.Nodup) (size : Nat) :
    (subsetsOf size items).Pairwise fun xs ys => xs.map items.idxOf < ys.map items.idxOf := by
  rw [← List.pairwise_map, ← subsetsOf_map, map_idxOf_self hNodup]
  exact pairwise_lt_subsetsOf List.pairwise_lt_range size

/-- Different sublists have different sets of members. -/
theorem nodup_map_toFinset (hNodup : items.Nodup) {lists : List (List α)} (hLists : lists.Nodup)
    (hSublists : ∀ members ∈ lists, members.Sublist items) :
    (lists.map List.toFinset).Nodup := by
  refine hLists.map_on fun xs hxs ys hys hSame => ?_
  refine eq_of_sublist hNodup (hSublists xs hxs) (hSublists ys hys) fun x => ?_
  rw [← List.mem_toFinset, hSame, List.mem_toFinset]

/-- No sublist is listed twice. -/
theorem nodup_subsetsOf (hNodup : items.Nodup) (size : Nat) : (subsetsOf size items).Nodup := by
  refine (pairwise_idxOf_subsetsOf hNodup size).imp fun hLess hSame => ?_
  subst hSame
  exact List.lt_irrefl _ hLess

/-- The sets of so many elements are exactly those of the sublists. -/
theorem mem_toFinset_subsetsOf (hNodup : items.Nodup) {size : Nat} {set : Finset α} :
    set ∈ (subsetsOf size items).map List.toFinset ↔ set ⊆ items.toFinset ∧ set.card = size := by
  rw [List.mem_map]
  constructor
  · rintro ⟨members, hMem, rfl⟩
    obtain ⟨hSublist, hLength⟩ := mem_subsetsOf.mp hMem
    refine ⟨fun x hx => ?_, ?_⟩
    · exact List.mem_toFinset.mpr (hSublist.subset (List.mem_toFinset.mp hx))
    · rw [List.toFinset_card_of_nodup (hSublist.nodup hNodup), hLength]
  · rintro ⟨hSubset, hCard⟩
    have hItems : ∀ x ∈ set.toList, x ∈ items :=
      fun x hx => List.mem_toFinset.mp (hSubset (Finset.mem_toList.mp hx))
    obtain ⟨members, hSublist, hSame⟩ := exists_sublist hItems
    have hSet : members.toFinset = set := by
      ext x
      rw [List.mem_toFinset, hSame, Finset.mem_toList]
    refine ⟨members, mem_subsetsOf.mpr ⟨hSublist, ?_⟩, hSet⟩
    rw [← hCard, ← hSet, List.toFinset_card_of_nodup (hSublist.nodup hNodup)]

end Positions

-- ---------------------------------------------------------------------------
-- The subsets of one size
-- ---------------------------------------------------------------------------

variable [DecidableEq α] {items : List α}

/-- The subsets of one size, each listed once and in the order of its positions. -/
structure ListsSubsets (items : List α) (size : Nat) (subsets : List (List α)) : Prop where
  mem_iff : ∀ set : Finset α,
    set ∈ subsets.map List.toFinset ↔ set ⊆ items.toFinset ∧ set.card = size
  once : (subsets.map List.toFinset).Nodup
  number : subsets.length = items.length.choose size
  none : items.length < size → subsets = []
  increasing : ∀ members ∈ subsets, (members.map items.idxOf).Pairwise (· < ·)
  ordered : subsets.Pairwise fun xs ys => xs.map items.idxOf < ys.map items.idxOf

theorem listsSubsets (hNodup : items.Nodup) (size : Nat) :
    ListsSubsets items size (subsetsOf size items) where
  mem_iff _ := mem_toFinset_subsetsOf hNodup
  once := nodup_map_toFinset hNodup (nodup_subsetsOf hNodup size)
    fun _ hMem => (mem_subsetsOf.mp hMem).1
  number := length_subsetsOf size items
  none := subsetsOf_of_length_lt
  increasing _ hMem := pairwise_idxOf_of_sublist hNodup (mem_subsetsOf.mp hMem).1
  ordered := pairwise_idxOf_subsetsOf hNodup size

omit [DecidableEq α] in
theorem sizedSubsets_natCast (items : List α) (size : Nat) :
    sizedSubsets items size = .ok (subsetsOf size items) := by
  rw [sizedSubsets, if_neg (Int.not_lt.mpr (Int.natCast_nonneg size)), Int.toNat_natCast]

/-- A size that is not negative is not refused. -/
theorem exists_listsSubsets (hNodup : items.Nodup) (size : Nat) :
    ∃ subsets, sizedSubsets items size = .ok subsets ∧ ListsSubsets items size subsets :=
  ⟨subsetsOf size items, sizedSubsets_natCast items size, listsSubsets hNodup size⟩

example : sizedSubsets ["a", "b", "c"] 2 = .ok [["a", "b"], ["a", "c"], ["b", "c"]] := rfl

-- ---------------------------------------------------------------------------
-- One size after another
-- ---------------------------------------------------------------------------

/-- All sublists that are not empty, smaller ones first. -/
def subsetsBySize {α : Type} (items : List α) : List (List α) :=
  (List.range' 1 items.length).flatMap fun size => subsetsOf size items

omit [DecidableEq α] in
/-- The sizes are asked for one after another. -/
theorem mapM_sizedSubsets (items : List α) (sizes : List Nat) :
    (sizes.mapM fun size : Nat => sizedSubsets items size) =
      .ok (sizes.map fun size => subsetsOf size items) := by
  simp only [sizedSubsets_natCast]
  exact List.mapM_pure

/-- The subsets that are not empty, each once and after all subsets that it contains. -/
structure VisitsSubsets (items : List α) (visited : List (List α)) : Prop where
  mem_iff : ∀ set : Finset α,
    set ∈ visited.map List.toFinset ↔ set ⊆ items.toFinset ∧ set.Nonempty
  once : (visited.map List.toFinset).Nodup
  later : ∀ i j (hi : i < visited.length) (hj : j < visited.length),
    visited[i].toFinset ⊂ visited[j].toFinset → i < j

omit [DecidableEq α] in
theorem mem_subsetsBySize {members : List α} :
    members ∈ subsetsBySize items ↔ members.Sublist items ∧ members ≠ [] := by
  rw [subsetsBySize, List.mem_flatMap]
  constructor
  · rintro ⟨size, hSize, hMem⟩
    obtain ⟨hSublist, hLength⟩ := mem_subsetsOf.mp hMem
    rw [List.mem_range'_1] at hSize
    exact ⟨hSublist, List.length_pos_iff.mp (by omega)⟩
  · rintro ⟨hSublist, hNonempty⟩
    have hPos := List.length_pos_iff.mpr hNonempty
    have hLe := hSublist.length_le
    refine ⟨members.length, ?_, mem_subsetsOf.mpr ⟨hSublist, rfl⟩⟩
    rw [List.mem_range'_1]
    omega

/-- Smaller sublists come first, and those of one length in the order of their positions. -/
theorem pairwise_subsetsBySize (hNodup : items.Nodup) :
    (subsetsBySize items).Pairwise fun xs ys => xs.length < ys.length ∨
      xs.length = ys.length ∧ xs.map items.idxOf < ys.map items.idxOf := by
  rw [subsetsBySize, List.pairwise_flatMap]
  constructor
  · intro size _
    refine (pairwise_idxOf_subsetsOf hNodup size).imp_of_mem fun hxs hys hLess => Or.inr ⟨?_, hLess⟩
    rw [(mem_subsetsOf.mp hxs).2, (mem_subsetsOf.mp hys).2]
  · refine (List.pairwise_lt_range' 1).imp fun hSizes xs hxs ys hys => Or.inl ?_
    rwa [(mem_subsetsOf.mp hxs).2, (mem_subsetsOf.mp hys).2]

theorem nodup_subsetsBySize (hNodup : items.Nodup) : (subsetsBySize items).Nodup := by
  refine (pairwise_subsetsBySize hNodup).imp fun hOrder hSame => ?_
  subst hSame
  rcases hOrder with hLess | ⟨-, hLess⟩
  · exact Nat.lt_irrefl _ hLess
  · exact List.lt_irrefl _ hLess

theorem mem_toFinset_subsetsBySize (hNodup : items.Nodup) {set : Finset α} :
    set ∈ (subsetsBySize items).map List.toFinset ↔ set ⊆ items.toFinset ∧ set.Nonempty := by
  have hOfSize : set ∈ (subsetsOf set.card items).map List.toFinset ↔
      set ⊆ items.toFinset ∧ set.card = set.card := mem_toFinset_subsetsOf hNodup
  rw [List.mem_map] at hOfSize ⊢
  constructor
  · rintro ⟨members, hMem, rfl⟩
    obtain ⟨hSublist, hNonempty⟩ := mem_subsetsBySize.mp hMem
    have hLength := List.toFinset_card_of_nodup (hSublist.nodup hNodup)
    have hSubset := hOfSize.mp ⟨members, mem_subsetsOf.mpr ⟨hSublist, hLength.symm⟩, rfl⟩
    exact ⟨hSubset.1, List.toFinset_nonempty_iff members |>.mpr hNonempty⟩
  · rintro ⟨hSubset, hNonempty⟩
    obtain ⟨members, hMem, hSet⟩ := hOfSize.mpr ⟨hSubset, rfl⟩
    subst hSet
    have hSublist := (mem_subsetsOf.mp hMem).1
    have hSome := List.toFinset_nonempty_iff members |>.mp hNonempty
    exact ⟨members, mem_subsetsBySize.mpr ⟨hSublist, hSome⟩, rfl⟩

theorem visitsSubsets (hNodup : items.Nodup) : VisitsSubsets items (subsetsBySize items) := by
  have hSublists : ∀ members ∈ subsetsBySize items, members.Sublist items :=
    fun members hMem => (mem_subsetsBySize.mp hMem).1
  refine ⟨fun set => mem_toFinset_subsetsBySize hNodup,
    nodup_map_toFinset hNodup (nodup_subsetsBySize hNodup) hSublists,
    fun i j hi hj hLess => ?_⟩
  have hCard := Finset.card_lt_card hLess
  rw [List.toFinset_card_of_nodup ((hSublists _ (List.getElem_mem hi)).nodup hNodup),
    List.toFinset_card_of_nodup ((hSublists _ (List.getElem_mem hj)).nodup hNodup)] at hCard
  by_contra hLater
  rcases Nat.eq_or_lt_of_le (not_lt.mp hLater) with rfl | hBefore
  · exact Nat.lt_irrefl _ hCard
  · have hOrder := List.pairwise_iff_getElem.mp (pairwise_subsetsBySize hNodup) j i hj hi hBefore
    omega

end JoinPlanner
