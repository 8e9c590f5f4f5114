import JoinPlanner.RunSort.Merge

/-!
# JoinPlanner — sorting by runs

Sorts by a comparison that may fail, and that need not be an order at all. The list is
read as runs that rise, or that fall and are turned around; short ones are filled up by
insertion. Neighbouring runs are merged, those first whose middles lie close together,
so that all merges are about even. Which elements are compared, and in which turn, is
fixed; the first comparison that fails is the one reported.

* `nextRun`    — the leading run of a list.
* `depth`      — how close the middles of two runs lie together.
* `sortByRuns` — the sorted list.
-/

namespace JoinPlanner

namespace RunSort

variable {α ε : Type} (before : α → α → Except ε Bool)

-- ---------------------------------------------------------------------------
-- Runs
-- ---------------------------------------------------------------------------

/-- The elements that go on in one direction, and the rest. -/
def takeRun (falling : Bool) (last : α) : List α → Except ε (List α × List α)
  | [] => .ok ([], [])
  | x :: rest => do
    if (← before x last) == falling then
      let (run, rest') ← takeRun falling x rest
      return (x :: run, rest')
    else return ([], x :: rest)

/-- The leading run in rising order, and the rest. -/
def naturalRun : List α → Except ε (List α × List α)
  | [] => .ok ([], [])
  | [x] => .ok ([x], [])
  | x :: y :: rest => do
    let falling ← before y x
    let (run, rest') ← takeRun before falling x (y :: rest)
    return (if falling then (x :: run).reverse else x :: run, rest')

/-- Inserts one element after another, each behind those that it does not come before. -/
def insertAll (xs : List α) : List α → Except ε (List α)
  | [] => .ok xs
  | x :: rest => do
    let i ← bisect (before x) xs.toArray 0 xs.length
    insertAll (xs.take i ++ x :: xs.drop i) rest

/-- The leading run, filled up to some length, and the rest. -/
def nextRun (least : Nat) (xs : List α) : Except ε (List α × List α) := do
  let (run, rest) ← naturalRun before xs
  let missing := least - run.length
  return (← insertAll before run (rest.take missing), rest.drop missing)

/-- The length that runs are filled up to: all below 64, otherwise an even part from 32 to 64. -/
def leastRun (length : Nat) : Nat :=
  let parts := Nat.pow 2 (Nat.log2 length - 5)
  (length + parts - 1) / parts

-- ---------------------------------------------------------------------------
-- Order of merges
-- ---------------------------------------------------------------------------

/-- A run, its place in the list, and how close it is to the run behind it. -/
structure Run (α : Type) where
  start : Nat
  items : List α
  depth : Nat
  deriving Repr

/--
How often the list has to be halved until the middles of two neighbouring runs lie in
different parts, for a run and the length of the run behind it.
-/
def depth (total : Nat) (run : Run α) (next : Nat) : Nat :=
  let middle := 2 * run.start + run.items.length
  let nextMiddle := middle + run.items.length + next
  ((List.range total).find? fun k =>
    middle * Nat.pow 2 k / total != nextMiddle * Nat.pow 2 k / total).getD total + 1

/-- The runs that are not merged yet, the latest first, and the patience of merges. -/
structure Pile (α : Type) where
  runs : List (Run α)
  patience : Nat
  deriving Repr

/-- Merges a run with the one behind it; the two are closer to what follows than to each other. -/
def joinRuns (patience : Nat) (run next : Run α) : Except ε (Nat × Run α) := do
  let (patience, items) ← mergeRuns before patience run.items next.items
  return (patience, { run with items })

/-- Merges the latest runs that are closer to each other than some depth. -/
def mergeCloser (bound : Nat) (pile : Pile α) : Except ε (Pile α) :=
  match pile with
  | ⟨top :: below :: rest, patience⟩ =>
    if bound < below.depth then do
      let (patience, run) ← joinRuns before patience below top
      mergeCloser bound ⟨run :: rest, patience⟩
    else .ok pile
  | pile => .ok pile
termination_by pile.runs.length

/-- Puts a run on the pile, after the merges that come before it. -/
def push (total : Nat) (pile : Pile α) (run : Run α) : Except ε (Pile α) :=
  match pile.runs with
  | [] => .ok { pile with runs := [run] }
  | top :: _ => do
    let bound := depth total top run.items.length
    let pile ← mergeCloser before bound pile
    match pile.runs with
    | [] => return { pile with runs := [run] }
    | top :: rest => return { pile with runs := run :: { top with depth := bound } :: rest }

/-- Merges all runs, a short third run before a longer latest one. -/
def collapse (pile : Pile α) : Except ε (List α) :=
  match pile with
  | ⟨[], _⟩ => .ok []
  | ⟨[run], _⟩ => .ok run.items
  | ⟨[top, below], patience⟩ => do
    let (_, run) ← joinRuns before patience below top
    return run.items
  | ⟨top :: below :: third :: rest, patience⟩ =>
    if third.items.length < top.items.length then do
      let (patience, run) ← joinRuns before patience third below
      collapse ⟨top :: run :: rest, patience⟩
    else do
      let (patience, run) ← joinRuns before patience below top
      collapse ⟨run :: third :: rest, patience⟩
termination_by pile.runs.length

-- ---------------------------------------------------------------------------
-- Sorting
-- ---------------------------------------------------------------------------

/-- Reads the runs of a list onto a pile; every run has at least one element. -/
def gather (total least : Nat) : (fuel start : Nat) → Pile α → List α → Except ε (Pile α)
  | 0, _, pile, _ => .ok pile
  | _ + 1, _, pile, [] => .ok pile
  | fuel + 1, start, pile, x :: xs => do
    let (items, rest) ← nextRun before least (x :: xs)
    let pile ← push before total pile ⟨start, items, 0⟩
    gather total least fuel (start + items.length) pile rest

/-- How many wins in a row a merge waits for at first. -/
def initialPatience : Nat := 7

end RunSort

/-- Sorts by a comparison that may fail. -/
def sortByRuns {α ε : Type} (before : α → α → Except ε Bool) (xs : List α) :
    Except ε (List α) := do
  let total := xs.length
  let pile ← RunSort.gather before total (RunSort.leastRun total) total 0
    ⟨[], RunSort.initialPatience⟩ xs
  RunSort.collapse before pile

end JoinPlanner
