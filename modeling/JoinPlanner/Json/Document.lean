import JoinPlanner.Association
import JoinPlanner.Comparand.Compare

/-!
# JoinPlanner — documents

A document is a JSON value before it is written. The keys of an object need not be
texts: numbers, truth values and null are written as texts, other keys are refused
or left out. Keys that are equal as values stand for one entry.

* `Label`             — the key of an entry, with what its value counts as in an order.
* `Document.ofMerged` — an object from fields, one for each name.
* `Document.ofSet`    — a set as a list in the order of its members' texts.
-/

namespace JoinPlanner.Json

/-- The key of an entry, and what orders entries whose keys are equal. -/
structure Label where
  key : Comparand
  rank : Comparand := .null
  deriving Repr

/-- Whether one entry comes before another. -/
def Label.before (a b : Label) : Outcome Bool :=
  Comparand.entryBefore (a.key, a.rank) (b.key, b.rank)

-- ---------------------------------------------------------------------------
-- Documents
-- ---------------------------------------------------------------------------

/-- A JSON value before it is written. -/
inductive Document where
  | null
  | flag (b : Bool)
  | number (q : Quantity)
  /-- A cell that holds a double. -/
  | realCell (x : Binary64)
  | text (s : String)
  | list (items : List Document)
  | object (entries : List (Label × Document))
  /-- A value of a type that has no JSON form. -/
  | opaqueValue (type : String)
  deriving Repr

namespace Document

/-- An object with distinct texts as keys. -/
def ofFields (fields : List (String × Document)) : Document :=
  object (fields.map fun f => (⟨.text f.1, .null⟩, f.2))

/-- An object with texts as keys; one that is repeated keeps its place and its last value. -/
def ofMerged (fields : List (String × Document)) : Document :=
  ofFields (fields.foldl (fun merged f => Association.put merged f.1 f.2) [])

/-- A set, given by its members with their texts, as a list in the order of the texts. -/
def ofSet (members : List (String × Document)) : Document :=
  list ((Text.sortedOn Prod.fst members).map Prod.snd)

/-- An integer. -/
def int (n : Int) : Document := number (.whole n)

/-- A text, or null. -/
def ofOption : Option String → Document
  | none => null
  | some s => text s

end Document

end JoinPlanner.Json
