import JoinPlanner.Sorting

/-!
# JoinPlanner — order of texts

Texts are ordered by code point, a proper beginning before its extensions.

* `sorted`   — a list of texts in increasing order.
* `distinct` — the same texts in increasing order, each once.
-/

namespace JoinPlanner.Text

/-- Whether one text comes no later than another. -/
def ordered (a b : String) : Bool := !decide (b < a)

/-- Whether one list of texts comes no later than another, text by text. -/
def orderedLists (a b : List String) : Bool := !decide (b < a)

/-- The texts in increasing order. -/
def sorted (texts : List String) : List String := sortBy ordered texts

/-- The texts in increasing order, without repetitions. -/
def distinct (texts : List String) : List String := sorted texts.eraseDups

/-- Elements in increasing order of their keys, elements of one key in their given order. -/
def sortedOn {α : Type} (key : α → String) (xs : List α) : List α :=
  sortBy (fun a b => ordered (key a) (key b)) xs

end JoinPlanner.Text
