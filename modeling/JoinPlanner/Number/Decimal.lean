import JoinPlanner.Number.Binary64

/-!
# JoinPlanner — decimal text of doubles

* `Binary64.shortestDigits` — the fewest digits that read back as the same
  double; among those the nearest, an exact tie to the even last digit.
* `Binary64.toText`   — positional from `0.0001` up to below `10 ^ 16`, else with
  an exponent; always a point or an exponent.
* `Binary64.toFixed`  — a given number of places, from the exact value.
* `Binary64.ofText?`  — reads a decimal numeral, rounding once.
-/

namespace JoinPlanner

namespace Binary64

-- ---------------------------------------------------------------------------
-- Shortest digits
-- ---------------------------------------------------------------------------

/-- The exponent `e` with `10 ^ e ≤ value < 10 ^ (e + 1)`, for a positive magnitude. -/
def decimalExponent (units : Nat) : Int :=
  ((Nat.repr (units * Nat.pow 10 350 / unitsPerOne)).length : Int) - 351

/-- The distance, in units, to the next double above. -/
def gapAbove (units : Nat) : Nat := Nat.pow 2 (spareBits units)

/-- The distance to the next double below: half as wide under a power of two. -/
def gapBelow (units : Nat) : Nat :=
  let gap := gapAbove units
  if 1 < gap && units == Nat.pow 2 (Nat.log2 units) then gap / 2 else gap

/--
Whether `candidate / scale` units round to `units`. The interval of reals that do
reaches half a gap to either side, ends included iff the significand is even.
-/
def readsBack (units candidate scale : Nat) : Bool :=
  let exact := units * scale
  let closed := units / gapAbove units % 2 == 0
  if exact ≤ candidate then
    let distance := 2 * (candidate - exact)
    let limit := gapAbove units * scale
    decide (distance < limit) || (closed && distance == limit)
  else
    let distance := 2 * (exact - candidate)
    let limit := gapBelow units * scale
    decide (distance < limit) || (closed && distance == limit)

/--
The multiple of `10 ^ place` next to a magnitude that reads back, if one of its two
neighbours does: the nearer one, on a tie the even one.
-/
def onGrid? (units : Nat) (place : Int) : Option Nat :=
  -- one grid step is `step / scale` units
  let step := if place < 0 then unitsPerOne else unitsPerOne * Nat.pow 10 place.toNat
  let scale := if place < 0 then Nat.pow 10 (-place).toNat else 1
  let low := units * scale / step
  let lowHits := readsBack units (low * step) scale
  let highHits := readsBack units ((low + 1) * step) scale
  if lowHits && highHits then some (roundHalfEven (units * scale) step)
  else if lowHits then some low
  else if highHits then some (low + 1)
  else none

/-- Tries grids of one digit more each time, for at most `fuel` grids. -/
def shortestFrom (units : Nat) (exponent : Int) (digits : Nat) : Nat → Nat × Int
  | 0 => (roundHalfEven units unitsPerOne, 0)
  | fuel + 1 =>
    let place := exponent - ((digits : Int) - 1)
    match onGrid? units place with
    | some n => (n, place)
    | none => shortestFrom units exponent (digits + 1) fuel

/--
The shortest decimal `n · 10 ^ place` that reads back as a positive magnitude;
seventeen digits always do.
-/
def shortestDigits (units : Nat) : Nat × Int :=
  shortestFrom units (decimalExponent units) 1 17

-- ---------------------------------------------------------------------------
-- Layout
-- ---------------------------------------------------------------------------

/-- Drops trailing zeros of a digit string, but keeps its first digit. -/
def dropZeros (digits : List Char) : List Char :=
  match digits with
  | [] => []
  | d :: rest => d :: (rest.reverse.dropWhile (· == '0')).reverse

/-- The exponent of the notation: a sign and at least two digits. -/
def exponentText (e : Int) : String :=
  let digits := Nat.repr e.natAbs
  let sign := if e < 0 then "-" else "+"
  "e" ++ sign ++ (if digits.length < 2 then "0" ++ digits else digits)

/-- Lays out digits whose first one stands for `10 ^ exponent`. -/
def layOut (digits : List Char) (exponent : Int) : String :=
  let zeros (n : Nat) : List Char := List.replicate n '0'
  if -4 ≤ exponent ∧ exponent < 0 then
    String.ofList ('0' :: '.' :: zeros ((-exponent).toNat - 1) ++ digits)
  else if 0 ≤ exponent ∧ exponent < 16 then
    let places := exponent.toNat + 1
    let whole := digits.take places ++ zeros (places - digits.length)
    let rest := digits.drop places
    String.ofList (whole ++ '.' :: (if rest.isEmpty then ['0'] else rest))
  else
    match digits with
    | [] => ""
    | [d] => String.ofList [d] ++ exponentText exponent
    | d :: rest => String.ofList (d :: '.' :: rest) ++ exponentText exponent

/-- The text of a magnitude. -/
def magnitudeText (units : Nat) : String :=
  if units = 0 then "0.0"
  else
    let (n, place) := shortestDigits units
    let digits := (Nat.repr n).toList
    layOut (dropZeros digits) (place + digits.length - 1)

/-- The shortest text that reads back as the same double. -/
def toText : Binary64 → String
  | nan => "nan"
  | infinite s => if s then "-inf" else "inf"
  | finite s m => (if s then "-" else "") ++ magnitudeText m

/-- The text of a double in a cell of a table, with the type of the cell. -/
def cellText (x : Binary64) : String := "np.float64(" ++ x.toText ++ ")"

/-- The exact value rounded to `places` decimals, a half to the even neighbour. -/
def toFixed (places : Nat) : Binary64 → String
  | nan => "nan"
  | infinite s => if s then "-inf" else "inf"
  | finite s m =>
    let scaled := roundHalfEven (m * Nat.pow 10 places) unitsPerOne
    let digits := (Nat.repr scaled).toList
    let padded := List.replicate (places + 1 - digits.length) '0' ++ digits
    let whole := padded.take (padded.length - places)
    let rest := padded.drop (padded.length - places)
    (if s then "-" else "") ++ String.ofList whole
      ++ (if places = 0 then "" else "." ++ String.ofList rest)

-- ---------------------------------------------------------------------------
-- Reading
-- ---------------------------------------------------------------------------

/-- The value of a string of decimal digits; none for anything else. -/
def digitsValue? (cs : List Char) : Option Nat :=
  cs.foldl (fun acc c => acc.bind fun n =>
    if c.isDigit then some (n * 10 + (c.toNat - '0'.toNat)) else none) (some 0)

/-- A signed string of at least one digit. -/
def signedDigits? (cs : List Char) : Option Int :=
  match cs with
  | '-' :: rest => if rest.isEmpty then none else (digitsValue? rest).map fun n => -(n : Int)
  | '+' :: rest => if rest.isEmpty then none else (digitsValue? rest).map Int.ofNat
  | rest => if rest.isEmpty then none else (digitsValue? rest).map Int.ofNat

/--
The double nearest to `± n · 10 ^ exponent`. Exponents so large or small that the
value leaves the range of doubles on every reading of `n` are cut short.
-/
def ofDecimal (negative : Bool) (n : Nat) (exponent : Int) : Binary64 :=
  if n = 0 then finite negative 0
  else if 400 < exponent then infinite negative
  else if exponent + (Nat.repr n).length < -400 then finite negative 0
  else if 0 ≤ exponent then ofQuotient negative (n * Nat.pow 10 exponent.toNat * unitsPerOne) 1
  else ofQuotient negative (n * unitsPerOne) (Nat.pow 10 (-exponent).toNat)

/-- Reads a numeral without its sign: digits, an optional fraction, an optional exponent. -/
def unsignedOfText? (negative : Bool) (cs : List Char) : Option Binary64 :=
  let mantissa := cs.takeWhile fun c => c != 'e' && c != 'E'
  let tail := cs.drop (mantissa.length + 1)
  let whole := mantissa.takeWhile (· != '.')
  let fraction := mantissa.drop (whole.length + 1)
  if whole.isEmpty && fraction.isEmpty then none
  else
    let exponent? := if cs.length = mantissa.length then some 0 else signedDigits? tail
    (digitsValue? (whole ++ fraction)).bind fun n =>
      exponent?.map fun e => ofDecimal negative n (e - fraction.length)

/-- Reads the text of a double. -/
def ofText? (text : String) : Option Binary64 :=
  match text with
  | "nan" => some nan
  | "inf" => some (infinite false)
  | "-inf" => some (infinite true)
  | _ =>
    match text.toList with
    | '-' :: rest => unsignedOfText? true rest
    | '+' :: rest => unsignedOfText? false rest
    | rest => unsignedOfText? false rest

end Binary64

/-- A number with the doubles as its approximating arithmetic. -/
abbrev Quantity := Number Binary64

/-- The text of a number: an integer in full, a double in its shortest form. -/
def Number.toText : Quantity → String
  | .whole n => toString n
  | .real x => x.toText

end JoinPlanner
