import JoinPlanner.Search.ChoiceTree

/-!
# JoinPlanner — the entries behind a look-up

A look-up in an association or in a tree of choices finds an entry of the key, and it
finds nothing only if there is none.

* `Association.exists_mem_of_get?`, `Association.get?_eq_none_iff` — associations.
* `Association.get?_foldl_put`, `Association.get?_map_const`, `Association.foldl_put_of_nodup` —
  several keys at once.
* `Association.put_of_get?_eq_none`, `Association.get?_of_mem` — new keys, and distinct ones.
* `ChoiceTree.exists_mem_of_get?`, `ChoiceTree.get?_eq_none_iff` — plans by choice.
-/

namespace JoinPlanner

namespace Association

variable {κ ν : Type} [BEq κ]

theorem exists_mem_of_get? {entries : Association κ ν} {key : κ} {value : ν}
    (h : entries.get? key = some value) : ∃ k, (k, value) ∈ entries ∧ (k == key) = true := by
  induction entries with
  | nil => cases h
  | cons e rest ih =>
    obtain ⟨k, v⟩ := e
    rw [get?] at h
    split at h
    · cases h
      exact ⟨k, List.mem_cons_self, ‹_›⟩
    · obtain ⟨k', hMem, hKey⟩ := ih h
      exact ⟨k', List.mem_cons_of_mem _ hMem, hKey⟩

/-- The entries after a key was set: the others as before, and one with the value. -/
theorem mem_put {entries : Association κ ν} {key : κ} {value : ν} {e : κ × ν}
    (h : e ∈ entries.put key value) : e ∈ entries ∨ e.2 = value := by
  induction entries with
  | nil =>
    rw [put, List.mem_singleton] at h
    exact Or.inr (congrArg Prod.snd h)
  | cons first rest ih =>
    rw [put] at h
    split at h
    · rcases List.mem_cons.mp h with rfl | h
      · exact Or.inr rfl
      · exact Or.inl (List.mem_cons_of_mem _ h)
    · rcases List.mem_cons.mp h with rfl | h
      · exact Or.inl List.mem_cons_self
      · exact (ih h).imp_left (List.mem_cons_of_mem _)

theorem get?_eq_none_iff {entries : Association κ ν} {key : κ} :
    entries.get? key = none ↔ ∀ e ∈ entries, (e.1 == key) = false := by
  induction entries with
  | nil => simp [get?]
  | cons e rest ih =>
    rw [get?, List.forall_mem_cons]
    cases hKey : e.1 == key with
    | true => simp
    | false => simpa using ih

/-- The key of an entry is found. -/
theorem exists_get?_of_mem {entries : Association κ ν} {key : κ} {e : κ × ν} (he : e ∈ entries)
    (hKey : (e.1 == key) = true) : ∃ value, entries.get? key = some value := by
  cases hGet : entries.get? key with
  | some value => exact ⟨value, rfl⟩
  | none =>
    rw [get?_eq_none_iff.mp hGet e he] at hKey
    cases hKey

/-- Setting several keys to one value changes these and no others. -/
theorem get?_foldl_put [LawfulBEq κ] [DecidableEq κ] (keys : List κ) (entries : Association κ ν)
    (value : ν) (key : κ) :
    get? (keys.foldl (fun acc k => acc.put k value) entries) key =
      if key ∈ keys then some value else entries.get? key := by
  induction keys generalizing entries with
  | nil => simp
  | cons k rest ih =>
    rw [List.foldl_cons, ih, get?_put]
    by_cases hRest : key ∈ rest
    · rw [if_pos hRest, if_pos (List.mem_cons_of_mem k hRest)]
    · by_cases hKey : k = key
      · simp [hKey]
      · simp [hRest, hKey, Ne.symm hKey]

theorem get?_map_const (entries : Association κ ν) (value : ν) (key : κ) :
    get? (entries.map fun e => (e.1, value)) key = (entries.get? key).map fun _ => value := by
  induction entries with
  | nil => rfl
  | cons e rest ih =>
    rw [List.map_cons, get?, get?]
    split
    · rfl
    · exact ih

/-- A key without an entry is put after all others. -/
theorem put_of_get?_eq_none {entries : Association κ ν} {key : κ} (h : entries.get? key = none)
    (value : ν) : entries.put key value = entries ++ [(key, value)] := by
  induction entries with
  | nil => rfl
  | cons e rest ih =>
    rw [get?] at h
    split at h
    · cases h
    · rename_i hKey
      rw [put, if_neg hKey, ih h]
      rfl

theorem put_of_not_mem [LawfulBEq κ] {entries : Association κ ν} {key : κ}
    (h : key ∉ entries.map Prod.fst) (value : ν) :
    entries.put key value = entries ++ [(key, value)] := by
  refine put_of_get?_eq_none (get?_eq_none_iff.mpr fun e he => ?_) value
  rw [beq_eq_false_iff_ne]
  rintro rfl
  exact h (List.mem_map_of_mem he)

/-- New keys are put after all others, in order. -/
theorem foldl_put_of_nodup [LawfulBEq κ] {others entries : Association κ ν}
    (h : ((entries ++ others).map Prod.fst).Nodup) :
    others.foldl (fun acc e => acc.put e.1 e.2) entries = entries ++ others := by
  induction others generalizing entries with
  | nil => exact (List.append_nil entries).symm
  | cons e rest ih =>
    have hNew : e.1 ∉ entries.map Prod.fst := by
      rw [List.map_append] at h
      exact fun hOld => (List.nodup_append.mp h).2.2 e.1 hOld e.1 List.mem_cons_self rfl
    rw [List.foldl_cons, put_of_not_mem hNew, ih, List.append_assoc]
    · rfl
    · rw [List.append_assoc]
      exact h

/-- Among distinct keys every entry is found. -/
theorem get?_of_mem [LawfulBEq κ] {entries : Association κ ν}
    (h : (entries.map Prod.fst).Nodup) {key : κ} {value : ν} (hMem : (key, value) ∈ entries) :
    entries.get? key = some value := by
  induction entries with
  | nil => cases hMem
  | cons e rest ih =>
    obtain ⟨hFirst, hRest⟩ := List.nodup_cons.mp h
    rcases List.mem_cons.mp hMem with rfl | hMem
    · rw [get?, beq_self_eq_true, if_pos rfl]
    · have hOther : e.1 ≠ key := by
        rintro rfl
        exact hFirst (List.mem_map.mpr ⟨(e.1, value), hMem, rfl⟩)
      rw [get?, if_neg (by simpa using hOther), ih hRest hMem]

end Association

namespace ChoiceTree

variable {joins : List Predicate} {found : List (JoinSet × Plan)} {choice : Choice}

/-- A tree that some plans are added to keeps its values, except for their choices. -/
theorem get?_foldl_cases (joins : List Predicate) (found : List (JoinSet × Plan))
    (choice : Choice) (tree : ChoiceTree Plan) :
    (∃ e ∈ found, choiceOf joins e.1 = choice ∧
      (found.foldl (fun tree (set, plan) => tree.insert plan (choiceOf joins set)) tree).get? choice
        = some e.2) ∨
    ((∀ e ∈ found, choiceOf joins e.1 ≠ choice) ∧
      (found.foldl (fun tree (set, plan) => tree.insert plan (choiceOf joins set)) tree).get? choice
        = tree.get? choice) := by
  induction found generalizing tree with
  | nil =>
    refine Or.inr ⟨fun e he => ?_, rfl⟩
    cases he
  | cons e rest ih =>
    obtain ⟨set, plan⟩ := e
    rw [List.foldl_cons]
    rcases ih (tree.insert plan (choiceOf joins set)) with ⟨e, he, hChoice, hGet⟩ | ⟨hNone, hGet⟩
    · exact Or.inl ⟨e, List.mem_cons_of_mem _ he, hChoice, hGet⟩
    · rw [get?_insert] at hGet
      by_cases hChoice : choiceOf joins set = choice
      · rw [if_pos hChoice] at hGet
        exact Or.inl ⟨(set, plan), List.mem_cons_self, hChoice, hGet⟩
      · rw [if_neg hChoice] at hGet
        exact Or.inr ⟨List.forall_mem_cons.mpr ⟨hChoice, hNone⟩, hGet⟩

theorem exists_mem_of_get? {plan : Plan} (h : (ofPlans joins found).get? choice = some plan) :
    ∃ set, (set, plan) ∈ found ∧ choiceOf joins set = choice := by
  rcases get?_foldl_cases joins found choice empty with
    ⟨⟨set, plan'⟩, he, hChoice, hGet⟩ | ⟨-, hGet⟩
  · obtain rfl := Option.some.inj (hGet.symm.trans h)
    exact ⟨set, he, hChoice⟩
  · cases hGet.symm.trans h

theorem get?_eq_none_iff :
    (ofPlans joins found).get? choice = none ↔ ∀ e ∈ found, choiceOf joins e.1 ≠ choice := by
  rcases get?_foldl_cases joins found choice empty with
    ⟨e, he, hChoice, hGet⟩ | ⟨hNone, hGet⟩
  · refine iff_of_false (fun h => ?_) fun h => h e he hChoice
    cases hGet.symm.trans h
  · exact iff_of_true hGet hNone

end ChoiceTree

end JoinPlanner
