import JoinPlanner.RunSort.Gallop

/-!
# JoinPlanner — merging two runs

Two neighbouring runs are merged from the end at which the shorter one lies: the
shorter run is set aside, the elements of both move one after another, and the last
element that was set aside needs no comparison. When one run keeps winning, the search
for the next change goes in growing steps; how many wins in a row that takes is the
*patience*, which adapts from merge to merge.

* `Contest`   — what two runs are compared by, from the front or from the back.
* `Merge.run` — the merged list, and the patience afterwards.
* `mergeRuns` — the merge of two runs; of elements that neither order comes first
  those of the earlier run go first.
-/

namespace JoinPlanner.RunSort

variable {α ε : Type}

-- ---------------------------------------------------------------------------
-- Contests
-- ---------------------------------------------------------------------------

/-- How the heads of the list set aside and of the rest are compared. -/
structure Contest (α ε : Type) where
  /-- Whether the head of the rest moves before the head of the list aside. -/
  restWins : (aside rest : α) → Except ε Bool
  /-- How many elements of the list aside move before the head of the rest. -/
  asideAhead : (rest : α) → (aside : List α) → Except ε Nat
  /-- How many elements of the rest move before the head of the list aside. -/
  restAhead : (aside : α) → (rest : List α) → Except ε Nat
  /-- Whether a round of searches begins in the list aside. -/
  asideFirst : Bool

section Direction

variable (before : α → α → Except ε Bool)

/-- The order with the answer turned around. -/
def notBefore (x y : α) : Except ε Bool := do return !(← before x y)

/-- From the front, with the earlier run aside. -/
def Contest.forward : Contest α ε where
  restWins x y := before y x
  asideAhead y aside := gallop (before y) aside.toArray 0
  restAhead x rest := gallop (notBefore before · x) rest.toArray 0
  asideFirst := true

/-- From the back, with the later run aside; both runs are read from their ends. -/
def Contest.backward : Contest α ε where
  restWins x y := before x y
  asideAhead y aside := do
    return aside.length
      - (← gallop (notBefore before · y) aside.reverse.toArray (aside.length - 1))
  restAhead x rest := do
    return rest.length - (← gallop (before x) rest.reverse.toArray (rest.length - 1))
  asideFirst := false

end Direction

-- ---------------------------------------------------------------------------
-- The state of a merge
-- ---------------------------------------------------------------------------

/-- A merge under way. -/
structure Merge (α : Type) where
  /-- What has moved, the latest first. -/
  moved : List α
  aside : List α
  rest : List α
  deriving Repr

/-- A merge that is complete, or one that goes on. -/
inductive Stage (α : Type) where
  | complete (result : List α)
  | going (merge : Merge α)
  deriving Repr

namespace Merge

/-- Everything in the order in which it would move without further comparisons. -/
def all (m : Merge α) : List α := m.moved.reverse ++ m.aside ++ m.rest

/-- Moves the head of the list aside and those behind it, `k` elements in all. -/
def moveAside (m : Merge α) (k : Nat) : Merge α :=
  { m with moved := (m.aside.take k).reverse ++ m.moved, aside := m.aside.drop k }

/-- Moves the head of the rest and those behind it, `k` elements in all. -/
def moveRest (m : Merge α) (k : Nat) : Merge α :=
  { m with moved := (m.rest.take k).reverse ++ m.moved, rest := m.rest.drop k }

/--
Completes a merge that needs no comparison: one list is used up, or a single element
is left aside, which goes last.
-/
def settle (m : Merge α) : Stage α :=
  match m.aside, m.rest with
  | [], rest => .complete (m.moved.reverse ++ rest)
  | aside, [] => .complete (m.moved.reverse ++ aside)
  | [x], rest => .complete (m.moved.reverse ++ rest ++ [x])
  | _, _ => .going m

end Merge

-- ---------------------------------------------------------------------------
-- One by one
-- ---------------------------------------------------------------------------

/-- Moves one element at a time, until one list has won as often in a row as there is patience. -/
def oneByOne (contest : Contest α ε) (patience asideWins restWins : Nat) (moved : List α) :
    (aside rest : List α) → Except ε (Stage α)
  | x :: x' :: xs, y :: ys =>
    if patience ≤ asideWins ∨ patience ≤ restWins then
      .ok (.going ⟨moved, x :: x' :: xs, y :: ys⟩)
    else do
      if ← contest.restWins x y then
        oneByOne contest patience 0 (restWins + 1) (y :: moved) (x :: x' :: xs) ys
      else oneByOne contest patience (asideWins + 1) 0 (x :: moved) (x' :: xs) (y :: ys)
  | aside, rest => .ok (Merge.settle ⟨moved, aside, rest⟩)
termination_by aside rest => aside.length + rest.length

-- ---------------------------------------------------------------------------
-- In growing steps
-- ---------------------------------------------------------------------------

/-- Moves what comes before the head of the rest, and that head; tells how many went before it. -/
def asideTurn (contest : Contest α ε) (m : Merge α) : Except ε (Nat × Stage α) :=
  match m.rest with
  | [] => .ok (0, m.settle)
  | y :: _ => do
    let k ← contest.asideAhead y m.aside
    match (m.moveAside k).settle with
    | .complete result => return (k, .complete result)
    | .going m => return (k, (m.moveRest 1).settle)

/-- Moves what comes before the head aside, and that head; tells how many went before it. -/
def restTurn (contest : Contest α ε) (m : Merge α) : Except ε (Nat × Stage α) :=
  match m.aside with
  | [] => .ok (0, m.settle)
  | x :: _ => do
    let k ← contest.restAhead x m.rest
    match (m.moveRest k).settle with
    | .complete result => return (k, .complete result)
    | .going m => return (k, (m.moveAside 1).settle)

/-- How many elements have to move at once for another round of searches. -/
def enoughAhead : Nat := 7

/-- Both turns; tells whether at least one of them moved enough. -/
def turns (contest : Contest α ε) (m : Merge α) : Except ε (Bool × Stage α) := do
  let first := if contest.asideFirst then asideTurn contest else restTurn contest
  let second := if contest.asideFirst then restTurn contest else asideTurn contest
  match ← first m with
  | (j, .complete result) => return (enoughAhead ≤ j, .complete result)
  | (j, .going m) =>
    let (k, stage) ← second m
    return (enoughAhead ≤ j || enoughAhead ≤ k, stage)

/--
Rounds of searches as long as they pay. Every further round makes the next one come
sooner, and the end of the rounds makes it come later.
-/
def rounds (contest : Contest α ε) : (fuel patience : Nat) → Merge α → Except ε (Nat × Stage α)
  | 0, patience, m => .ok (patience, .complete m.all)
  | fuel + 1, patience, m => do
    match ← turns contest m with
    | (_, .complete result) => return (patience, .complete result)
    | (true, .going m) => rounds contest fuel (max 1 (patience - 1)) m
    | (false, .going m) => return (patience + 1, .going m)

-- ---------------------------------------------------------------------------
-- Merging
-- ---------------------------------------------------------------------------

/-- Moves elements one by one and in rounds, by turns; every stretch moves at least one. -/
def Merge.run (contest : Contest α ε) : (fuel patience : Nat) → Merge α → Except ε (Nat × List α)
  | 0, patience, m => .ok (patience, m.all)
  | fuel + 1, patience, m => do
    match ← oneByOne contest patience 0 0 m.moved m.aside m.rest with
    | .complete result => return (patience, result)
    | .going m =>
      match ← rounds contest (fuel + 1) patience m with
      | (patience, .complete result) => return (patience, result)
      | (patience, .going m) => Merge.run contest fuel patience m

/-- Merges a list set aside with the rest, whose head moves first. -/
def mergeAside (contest : Contest α ε) (patience : Nat) (aside rest : List α) :
    Except ε (Nat × List α) :=
  Merge.run contest (aside.length + rest.length + 1) patience (Merge.moveRest ⟨[], aside, rest⟩ 1)

/-- Merges two runs from the end at which the shorter one lies. -/
def mergeOverlap (before : α → α → Except ε Bool) (patience : Nat) (xs ys : List α) :
    Except ε (Nat × List α) :=
  if xs.length ≤ ys.length then mergeAside (Contest.forward before) patience xs ys
  else do
    let (patience, merged) ←
      mergeAside (Contest.backward before) patience ys.reverse xs.reverse
    return (patience, merged.reverse)

/--
The merge of two neighbouring runs. What stands before the head of the later run, or
after the last of the earlier one, stays where it is.
-/
def mergeRuns (before : α → α → Except ε Bool) (patience : Nat) (xs ys : List α) :
    Except ε (Nat × List α) :=
  match ys.head? with
  | none => .ok (patience, xs)
  | some y => do
    let k ← gallop (before y) xs.toArray 0
    match (xs.drop k).getLast? with
    | none => return (patience, xs ++ ys)
    | some x =>
      let j ← gallop (notBefore before · x) ys.toArray (ys.length - 1)
      if j = 0 then return (patience, xs ++ ys)
      else
        let (patience, merged) ← mergeOverlap before patience (xs.drop k) (ys.take j)
        return (patience, xs.take k ++ merged ++ ys.drop j)

end JoinPlanner.RunSort
