import JoinPlanner.Comparand.Basic

/-!
# JoinPlanner — marks of keys

Keys are told apart in two steps: by their marks, which are quickly compared, and only
then, if their marks agree, by their values. Equal numbers have equal marks, whatever
their form. The mark of a number is its residue modulo the prime `2 ^ 61 - 1`; doubles
have residues too, because two is invertible there. The mark of a tuple mixes the marks
of its items.

* `Comparand.mark?` — the mark of a key, if it follows from numbers.
* `Comparand.alike` — whether two keys have to be compared as values.
-/

namespace JoinPlanner

-- ---------------------------------------------------------------------------
-- Numbers
-- ---------------------------------------------------------------------------

/-- The modulus of residues. -/
def residueModulus : Nat := Nat.pow 2 61 - 1

/-- The residue of the smallest positive double, `2 ^ -1074`: `2 ^ 61` has residue one. -/
def unitResidue : Nat := Nat.pow 2 24

/-- What stands for infinity instead of a residue. -/
def infinityMark : Nat := 314159

/-- A residue with the sign of its number; minus one does not occur. -/
def signedMark (negative : Bool) (residue : Nat) : UInt64 :=
  let mark : Int := if negative then -(residue : Int) else residue
  UInt64.ofInt (if mark = -1 then -2 else mark)

/-- The mark of a number; the undefined one has none, it is like no other. -/
def Number.mark? : Quantity → Option UInt64
  | .whole n => some (signedMark (decide (n < 0)) (n.natAbs % residueModulus))
  | .real .nan => none
  | .real (.infinite negative) => some (signedMark negative infinityMark)
  | .real (.finite negative units) =>
    some (signedMark negative (units * unitResidue % residueModulus))

-- ---------------------------------------------------------------------------
-- Tuples
-- ---------------------------------------------------------------------------

/-- The mark of no items yet. -/
def mixSeed : UInt64 := 2870177450012600261

/-- Mixes the mark of one more item in. -/
def mixStep (acc mark : UInt64) : UInt64 :=
  let sum := acc + mark * 14029467366897019727
  ((sum <<< 31) ||| (sum >>> 33)) * 11400714785074694791

/-- The mark of a tuple of items with the given marks. -/
def mixedMark (marks : List UInt64) : UInt64 :=
  let mixed := marks.foldl mixStep mixSeed
    + (UInt64.ofNat marks.length ^^^ (mixSeed ^^^ 3527539))
  if mixed = UInt64.ofInt (-1) then 1546275796 else mixed

-- ---------------------------------------------------------------------------
-- Keys
-- ---------------------------------------------------------------------------

namespace Comparand

mutual

/-- The mark of a key that consists of numbers and empty texts only. -/
def mark? : Comparand → Option UInt64
  | tuple items => mixedMark <$> marks? items
  | text s => if s.isEmpty then some 0 else none
  | bytes s => if s.isEmpty then some 0 else none
  | x => x.number?.bind Number.mark?

def marks? : List Comparand → Option (List UInt64)
  | [] => some []
  | x :: rest => do return (← mark? x) :: (← marks? rest)

end

mutual

/-- Whether two keys have to be compared as values: no mark tells them apart. -/
def alike : Comparand → Comparand → Bool
  | null, null => true
  | text s, text t => s == t
  | bytes s, bytes t => s == t
  | record t xs, record u ys => t == u && alikeAll xs ys
  | tuple xs, tuple ys =>
    match mixedMark <$> marks? xs, mixedMark <$> marks? ys with
    | some m, some n => m == n
    | none, none => alikeAll xs ys
    | _, _ => false
  | a, b =>
    match a.number?, b.number? with
    | some (.whole m), some (.whole n) => m == n
    | some (.real x), some (.real y) => Binary64.compare? x y == some .eq
    | _, _ =>
      match a.mark?, b.mark? with
      | some m, some n => m == n
      | _, _ => false

def alikeAll : List Comparand → List Comparand → Bool
  | [], [] => true
  | x :: xs, y :: ys => alike x y && alikeAll xs ys
  | _, _ => false

end

end Comparand

end JoinPlanner
