import JoinPlanner.Value

/-!
# JoinPlanner — log lines

An entry is a list of values with a separator and an end. A heading, if it is not
empty, stands before the values of each entry like a value of its own.

* `Log.write`        — the text of a series of entries.
* `Log.headingCalls` — how often a computed heading was asked for.
-/

namespace JoinPlanner.Log

/-- What is written at once. -/
structure Entry where
  values : List Value
  separator : String := " "
  ending : String := "\n"

/-- What stands before each entry: one text, or the text for the entry's number. -/
inductive Heading where
  | fixed (text : String)
  | computed (text : Nat → String)

/-- The heading of the entry with the given number, counted from one. -/
def Heading.text : Heading → Nat → String
  | fixed text, _ => text
  | computed text, n => text n

/-- The text of one entry. -/
def Entry.toText (heading : String) (entry : Entry) : String :=
  let values := entry.values.map Value.display
  let parts := if heading.isEmpty then values else heading :: values
  entry.separator.intercalate parts ++ entry.ending

/-- The text of entries; nothing is written when logging is off. -/
def write (enabled : Bool) (heading : Heading) (entries : List Entry) : String :=
  if enabled then
    String.join ((entries.zipIdx 1).map fun (entry, n) => entry.toText (heading.text n))
  else ""

/-- A computed heading is asked for once for each entry that is written. -/
def headingCalls (enabled : Bool) (heading : Heading) (entries : List Entry) : Nat :=
  match heading with
  | .computed _ => if enabled then entries.length else 0
  | .fixed _ => 0

end JoinPlanner.Log
