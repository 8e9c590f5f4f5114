/-!
# JoinPlanner — sorting

Lists are sorted by insertion. Elements that the order does not tell apart keep their
places, so the result depends on the order of the input in no other way.

* `sortBy_perm`     — sorting neither drops nor adds an element.
* `sortBy_pairwise` — the result is in order, if any two elements can be compared and
  the order is transitive.
-/

namespace JoinPlanner

variable {α : Type} (le : α → α → Bool)

/-- Puts an element before the first one that may come after it. -/
def insertBy (x : α) : List α → List α
  | [] => [x]
  | y :: rest => if le x y then x :: y :: rest else y :: insertBy x rest

/-- The elements in increasing order. -/
def sortBy : List α → List α
  | [] => []
  | x :: rest => insertBy le x (sortBy rest)

theorem insertBy_perm (x : α) (xs : List α) : (insertBy le x xs).Perm (x :: xs) := by
  induction xs with
  | nil => exact List.Perm.refl _
  | cons y rest ih =>
    unfold insertBy
    split
    · exact List.Perm.refl _
    · exact (ih.cons y).trans (List.Perm.swap x y rest)

theorem sortBy_perm (xs : List α) : (sortBy le xs).Perm xs := by
  induction xs with
  | nil => exact List.Perm.refl _
  | cons x rest ih => exact (insertBy_perm le x _).trans (ih.cons x)

@[simp] theorem mem_sortBy {x : α} {xs : List α} : x ∈ sortBy le xs ↔ x ∈ xs :=
  (sortBy_perm le xs).mem_iff

theorem insertBy_pairwise (total : ∀ a b, le a b || le b a)
    (trans : ∀ a b c, le a b → le b c → le a c) (x : α) {xs : List α}
    (sorted : xs.Pairwise fun a b => le a b) :
    (insertBy le x xs).Pairwise fun a b => le a b := by
  induction xs with
  | nil => exact List.pairwise_singleton _ _
  | cons y rest ih =>
    obtain ⟨hy, hrest⟩ := List.pairwise_cons.mp sorted
    unfold insertBy
    split
    · rename_i hxy
      refine List.pairwise_cons.mpr ⟨fun z hz => ?_, sorted⟩
      rcases List.mem_cons.mp hz with rfl | hz
      · exact hxy
      · exact trans x y z hxy (hy z hz)
    · rename_i hxy
      have hyx : le y x := by simpa [hxy] using total x y
      refine List.pairwise_cons.mpr ⟨fun z hz => ?_, ih hrest⟩
      rcases List.mem_cons.mp ((insertBy_perm le x rest).mem_iff.mp hz) with rfl | hz
      · exact hyx
      · exact hy z hz

theorem sortBy_pairwise (total : ∀ a b, le a b || le b a)
    (trans : ∀ a b c, le a b → le b c → le a c) (xs : List α) :
    (sortBy le xs).Pairwise fun a b => le a b := by
  induction xs with
  | nil => exact List.Pairwise.nil
  | cons x rest ih => exact insertBy_pairwise le total trans x ih

end JoinPlanner
