import JoinPlanner.Error

/-!
# JoinPlanner — subsets of a list

* `subsetsOf size items` — the sublists of the given length, in the lexicographic
  order of their positions.
* `subsetsOf_cons`       — the sublists with the first element, then those without it.
* `sizedSubsets`         — the same for a size that may be negative, an error then.
-/

namespace JoinPlanner

/--
The sublists of a given length; those with the first element come first. A list that is
too short is not searched.
-/
def subsetsOf {α : Type} : Nat → List α → List (List α)
  | 0, _ => [[]]
  | _ + 1, [] => []
  | size + 1, x :: rest =>
    if rest.length < size then []
    else (subsetsOf size rest).map (x :: ·) ++ subsetsOf (size + 1) rest

theorem subsetsOf_of_length_lt {α : Type} {size : Nat} {items : List α}
    (short : items.length < size) : subsetsOf size items = [] := by
  cases size with
  | zero => exact absurd short (Nat.not_lt_zero _)
  | succ size =>
    cases items with
    | nil => rfl
    | cons x rest => exact if_pos (Nat.lt_of_succ_lt_succ short)

/-- The sublists with the first element come before those without it. -/
theorem subsetsOf_cons {α : Type} (size : Nat) (x : α) (rest : List α) :
    subsetsOf (size + 1) (x :: rest)
      = (subsetsOf size rest).map (x :: ·) ++ subsetsOf (size + 1) rest := by
  by_cases short : rest.length < size
  · rw [subsetsOf_of_length_lt (Nat.succ_lt_succ short : (x :: rest).length < size + 1),
      subsetsOf_of_length_lt short, subsetsOf_of_length_lt (Nat.lt_succ_of_lt short)]
    rfl
  · exact if_neg short

/-- The sublists of a given length, if that is not negative. -/
def sizedSubsets {α : Type} (items : List α) (size : Int) : Outcome (List (List α)) :=
  if size < 0 then .error (.negativeSubsetSize size) else .ok (subsetsOf size.toNat items)

end JoinPlanner
