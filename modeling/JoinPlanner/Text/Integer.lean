import JoinPlanner.Error
import JoinPlanner.Text.Blank

/-!
# JoinPlanner — integers in texts

A text stands for an integer if it consists of decimal digits, of whatever script, after
a sign or none. Single underscores may stand between digits, and blanks other than the
information separators around the whole. The data are those of Unicode 14.

* `digit?`  — the value of a decimal digit.
* `integer` — the integer that a text stands for.
-/

namespace JoinPlanner.Text

/-- The code points of the zeros, each of which its script's other nine digits follow. -/
def zeros : List Nat := [
  0x30, 0x660, 0x6f0, 0x7c0, 0x966, 0x9e6, 0xa66, 0xae6, 0xb66, 0xbe6, 0xc66, 0xce6, 0xd66,
  0xde6, 0xe50, 0xed0, 0xf20, 0x1040, 0x1090, 0x17e0, 0x1810, 0x1946, 0x19d0, 0x1a80, 0x1a90,
  0x1b50, 0x1bb0, 0x1c40, 0x1c50, 0xa620, 0xa8d0, 0xa900, 0xa9d0, 0xa9f0, 0xaa50, 0xabf0,
  0xff10, 0x104a0, 0x10d30, 0x11066, 0x110f0, 0x11136, 0x111d0, 0x112f0, 0x11450, 0x114d0,
  0x11650, 0x116c0, 0x11730, 0x118e0, 0x11950, 0x11c50, 0x11d50, 0x11da0, 0x16a60, 0x16ac0,
  0x16b50, 0x1d7ce, 0x1d7d8, 0x1d7e2, 0x1d7ec, 0x1d7f6, 0x1e140, 0x1e2f0, 0x1e950, 0x1fbf0]

/-- The value of a decimal digit. -/
def digit? (c : Char) : Option Nat :=
  (zeros.find? fun first => first ≤ c.toNat && c.toNat < first + 10).map (c.toNat - ·)

/-- A blank that may stand beside an integer. -/
def isPadding (c : Char) : Bool := isBlank c && !(0x1c ≤ c.toNat && c.toNat ≤ 0x1f)

/-- Whether there is a sign for negative integers, and what follows the sign. -/
def splitSign : List Char → Bool × List Char
  | '-' :: rest => (true, rest)
  | '+' :: rest => (false, rest)
  | chars => (false, chars)

/-- Whether each underscore among digits stands between two of them. -/
def isNumeral (chars : List Char) : Bool :=
  !chars.isEmpty && chars.head? != some '_' && chars.getLast? != some '_'
    && !(chars.zip (chars.drop 1)).contains ('_', '_')

/-- The most digits that are read. -/
def mostDigits : Nat := 4300

/-- The integer that a text stands for. -/
def integer (text : String) : Outcome Int := do
  let (negative, unsigned) := splitSign (text.toList.dropWhile isPadding)
  let (numeral, rest) := unsigned.span fun c => (digit? c).isSome || c == '_'
  if !isNumeral numeral then throw (.notInteger text)
  let digits := numeral.filterMap digit?
  if mostDigits < digits.length then throw (.tooManyDigits digits.length)
  if !rest.all isPadding then throw (.notInteger text)
  let value : Nat := digits.foldl (fun n d => 10 * n + d) 0
  return if negative then -(value : Int) else value

example : integer " -1_0 " = .ok (-10) := by cbv

end JoinPlanner.Text
