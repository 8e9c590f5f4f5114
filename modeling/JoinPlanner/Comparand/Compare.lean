import JoinPlanner.Comparand.Grid
import JoinPlanner.Comparand.Mark

/-!
# JoinPlanner — comparing comparands

Values of their own are compared by kind: numbers by their exact values, texts by code
points, collections item by item. A cell or an array turns what it is compared with into
a grid; the elements are compared place by place, as doubles if one side holds doubles,
and there must be exactly one answer.

* `Comparand.compare`     — whether two comparands stand in some relation, if that is defined.
* `Comparand.sameKey`     — whether two keys stand for one entry.
* `Comparand.entryBefore` — the order of entries: by their keys, then by their values.
-/

namespace JoinPlanner

/-- What can be asked of two comparands. -/
inductive Relation where
  | equal
  | less
  | greater
  deriving DecidableEq, Repr

namespace Relation

/-- The relation with the sides exchanged. -/
def swap : Relation → Relation
  | equal => equal
  | less => greater
  | greater => less

/-- Whether an order of two numbers, or the lack of one, is the relation. -/
def holds : Relation → Option Ordering → Bool
  | equal, o => o == some .eq
  | less, o => o == some .lt
  | greater, o => o == some .gt

/-- The sign of the relation. -/
def symbol : Relation → String
  | equal => "=="
  | less => "<"
  | greater => ">"

/-- The name of the comparison of elements. -/
def name : Relation → String
  | equal => "equal"
  | less => "less"
  | greater => "greater"

end Relation

namespace Comparand

-- ---------------------------------------------------------------------------
-- Single values
-- ---------------------------------------------------------------------------

/-- The relation of values without a common order: they are not equal. -/
def unordered (rel : Relation) (a b : Comparand) : Outcome Bool :=
  if rel = .equal then .ok false
  else .error (.incomparable rel.symbol a.typeName b.typeName)

/-- The relation of two texts. -/
def compareTexts (rel : Relation) (s t : String) : Bool :=
  rel.holds (some (if s < t then .lt else if t < s then .gt else .eq))

/-- The relation of two numbers as doubles. -/
def compareRounded (rel : Relation) (x y : Quantity) : Outcome Bool := do
  return rel.holds (Arithmetic.compare? (← x.toReal) (← y.toReal))

/-- Whether a cell makes two numbers be compared as doubles. -/
def rounds : Comparand → Comparand → Bool
  | realCell _, _ | _, realCell _ => true
  | intCell _, number (.real _) | number (.real _), intCell _ => true
  | _, _ => false

/-- The relation of two single values. -/
def compareSingle (rel : Relation) (a b : Comparand) : Outcome Bool :=
  match a, b with
  | null, null => if rel = .equal then .ok true else unordered rel a b
  | text s, text t | bytes s, bytes t => .ok (compareTexts rel s t)
  | _, _ =>
    match a.number?, b.number? with
    | some x, some y =>
      if rounds a b then compareRounded rel x y else .ok (rel.holds (Number.compare? x y))
    | _, _ => unordered rel a b

-- ---------------------------------------------------------------------------
-- Grids
-- ---------------------------------------------------------------------------

/-- The only answer of several. -/
def soleAnswer : List Bool → Outcome Bool
  | [] => .error .emptyTruth
  | [b] => .ok b
  | _ => .error .ambiguousTruth

/-- The pairs of elements of two grids whose shapes fit together. -/
def sideBySide (g h : Grid) : Outcome (List (Comparand × Comparand)) :=
  match g.pairs? h with
  | some pairs => .ok pairs
  | none => .error (.shapeMismatch g.shape h.shape)

/--
The relation of two comparands as grids: the elements at the only place are in it. Grids
whose elements are not compared are not equal.
-/
def compareGrids (rel : Relation) (a b : Comparand) : Outcome Bool := do
  let g ← Grid.ofComparand a
  let h ← Grid.ofComparand b
  match g.type.beside? h.type with
  | some type =>
    let pairs ← sideBySide (← g.ofPlain type) (← h.ofPlain type)
    soleAnswer (← pairs.mapM fun (x, y) => compareSingle rel x y)
  | none =>
    if rel != .equal then throw (.noComparison rel.name)
    soleAnswer ((← sideBySide g h).map fun _ => false)

-- ---------------------------------------------------------------------------
-- All values
-- ---------------------------------------------------------------------------

mutual

/-- Whether two comparands stand in some relation, if that is defined. -/
def compare (rel : Relation) : Comparand → Comparand → Outcome Bool
  | tuple xs, tuple ys => compareItems rel xs ys
  | list xs, list ys =>
    if rel = .equal && xs.length != ys.length then .ok false else compareItems rel xs ys
  | mapping xs, mapping ys =>
    if rel = .equal then
      if xs.length = ys.length then containsEntries ys xs else .ok false
    else unordered rel (mapping xs) (mapping ys)
  | set xs, set ys =>
    match rel with
    | .equal => if xs.length = ys.length then coveredBy ys xs else .ok false
    | .less => if xs.length < ys.length then coveredBy ys xs else .ok false
    | .greater => if ys.length < xs.length then ys.allM (hasMember xs) else .ok false
  | record t xs, record u ys =>
    if rel = .equal then
      if t = u then compareItems .equal xs ys else .ok false
    else unordered rel (record t xs) (record u ys)
  | a, b =>
    if a.isGridded then compareGrids rel a b
    else if b.isGridded then compareGrids rel.swap b a
    else compareSingle rel a b
termination_by structural a => a

/-- The first items that are not equal decide, then the lengths. -/
def compareItems (rel : Relation) : List Comparand → List Comparand → Outcome Bool
  | [], [] => .ok (rel = .equal)
  | [], _ :: _ => .ok (rel = .less)
  | _ :: _, [] => .ok (rel = .greater)
  | x :: xs, y :: ys => do
    if ← compare .equal x y then compareItems rel xs ys
    else if rel = .equal then return false
    else compare rel x y
termination_by structural xs => xs

/-- Whether all members of one set are members of another one. -/
def coveredBy (others : List Comparand) : List Comparand → Outcome Bool
  | [] => .ok true
  | x :: rest => do
    if ← others.anyM fun y => if x.alike y then compare .equal x y else .ok false then
      coveredBy others rest
    else return false
termination_by structural members => members

/-- Whether a key is a member of a set. -/
def hasMember : List Comparand → Comparand → Outcome Bool
  | [], _ => .ok false
  | x :: rest, y => do
    if x.alike y then
      if ← compare .equal x y then return true else hasMember rest y
    else hasMember rest y
termination_by structural members => members

/-- Whether a mapping has all of some entries. -/
def containsEntries (entries : List (Comparand × Comparand)) :
    List (Comparand × Comparand) → Outcome Bool
  | [] => .ok true
  | (key, value) :: rest => do
    let found ← entries.findM? fun e =>
      if key.alike e.1 then compare .equal key e.1 else .ok false
    match found with
    | none => return false
    | some (_, other) =>
      if ← compare .equal value other then containsEntries entries rest else return false
termination_by structural own => own

end

/-- Whether two keys stand for one entry. -/
def sameKey (a b : Comparand) : Outcome Bool :=
  if a.alike b then compare .equal a b else .ok false

/-- Whether one entry comes before another: by the keys, and by the values if those are equal. -/
def entryBefore (a b : Comparand × Comparand) : Outcome Bool := do
  if ← compare .equal a.1 b.1 then
    if ← compare .equal a.2 b.2 then return false else compare .less a.2 b.2
  else compare .less a.1 b.1

end Comparand

end JoinPlanner
