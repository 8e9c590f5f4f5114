/-!
# JoinPlanner — blank characters

Blank are the characters of Unicode whose bidirectional class is a separator or
whose category is a space separator: blanks, line ends and the four information
separators.

* `trim` — drops blanks at both ends of a text.
-/

namespace JoinPlanner.Text

/-- The ranges of blank code points, ends included. -/
def blankRanges : List (Nat × Nat) := [
  (0x9, 0xd), (0x1c, 0x20), (0x85, 0x85), (0xa0, 0xa0),
  (0x1680, 0x1680), (0x2000, 0x200a), (0x2028, 0x2029), (0x202f, 0x202f),
  (0x205f, 0x205f), (0x3000, 0x3000)]

def isBlank (c : Char) : Bool :=
  blankRanges.any fun range => range.1 ≤ c.toNat && c.toNat ≤ range.2

/-- The text without the blanks at its ends. -/
def trim (text : String) : String :=
  String.ofList ((text.toList.dropWhile isBlank).reverse.dropWhile isBlank).reverse

end JoinPlanner.Text
