import JoinPlanner.Catalog.Basic
import JoinPlanner.Explanation

/-!
# JoinPlanner — exported values

Everything that can be exported as a document: plain values and collections, the
elements of a query, and results. A set becomes a list in the order of its members'
texts, so that an export does not depend on how the set was built.

* `Export.display`    — the text of a value on its own.
* `Export.inner`      — the text of a value inside a collection.
* `Export.comparand`  — the value as comparisons see it.
* `Export.withEntry`  — the entries of a mapping with one more entry.
* `Export.withMember` — the members of a set with one more member.
* `Export.evenly`     — an array whose rows all have one length.
* `Export.document`   — the document of a value.
-/

namespace JoinPlanner

/-- A value that can be exported. -/
inductive Export where
  | null
  | flag (b : Bool)
  | number (q : Quantity)
  | text (s : String)
  | list (items : List Export)
  | tuple (items : List Export)
  | intArray (items : List Export)
  | realArray (items : List Export)
  /-- Distinct values that cannot change. -/
  | set (members : List Export)
  /-- Entries of distinct keys, which cannot change. -/
  | mapping (entries : List (Export × Export))
  /-- A cell that holds an integer of 64 bits. -/
  | intCell (n : Int)
  /-- A cell that holds a double. -/
  | realCell (x : Binary64)
  /-- The bytes of a text, which have no document. -/
  | bytes (content : String)
  /-- One of several named values, with what it stands for. -/
  | choice (type name : String) (meaning : Value)
  | operator (op : Comparison)
  | method (m : JoinMethod)
  | columnType (t : ColumnType)
  | predicate (p : Predicate)
  | schema (s : Schema)
  | plan (p : Plan)
  | node (n : PlanNode)
  deriving Repr

namespace Export

-- ---------------------------------------------------------------------------
-- Texts
-- ---------------------------------------------------------------------------

/-- A named value with what it stands for. -/
def choiceText (type name meaning : String) : String :=
  "<" ++ type ++ "." ++ name ++ ": " ++ meaning ++ ">"

/-- A record with its fields. -/
def recordText (type : String) (fields : List (String × String)) : String :=
  type ++ "(" ++ ", ".intercalate (fields.map fun f => f.1 ++ "=" ++ f.2) ++ ")"

def operatorText (op : Comparison) : String :=
  choiceText "ComparisonOperator" op.name (Text.quoted op.symbol)

def columnTypeText (t : ColumnType) : String := choiceText "FieldType" t.name (toString t.size)

/-- The type of a predicate. -/
def predicateType (p : Predicate) : String :=
  if p.isSubplan then "SubplanJoinPredicate" else "JoinPredicate"

/-- A predicate field by field. -/
def predicateText (p : Predicate) : String :=
  let name (s : Option String) : String := (Value.ofOption s).inner
  recordText (predicateType p) [
    ("left_alias", name p.left.table), ("left_field", name p.left.column),
    ("operator", operatorText p.operator),
    ("right_alias", name p.right.table), ("right_field", name p.right.column)]

/-- A plan field by field. -/
def planText (p : Plan) : String :=
  recordText "CostCard" [
    ("cost", p.cost.toText), ("cardinality", toString p.cardinality),
    ("plan", tupleText (p.order.map predicateText))]

/-- A schema field by field. -/
def schemaText (s : Schema) : String :=
  let column (c : Column) : String := tupleText [Text.quoted c.name, columnTypeText c.type]
  recordText "TupleSchema" [("fields", tupleText (s.columns.map column))]

mutual

/-- The text of a value inside a collection. -/
def inner : Export → String
  | null => "None"
  | flag b => (Value.flag b).inner
  | number q => q.toText
  | text s => Text.quoted s
  | list items => "[" ++ ", ".intercalate (inners items) ++ "]"
  | tuple items => tupleText (inners items)
  | intArray items | realArray items => "array([" ++ ", ".intercalate (inners items) ++ "])"
  | set members => "\x7b" ++ ", ".intercalate (inners members) ++ "\x7d"
  | mapping entries => "\x7b" ++ ", ".intercalate (innerEntries entries) ++ "\x7d"
  | intCell n => "np.int64(" ++ toString n ++ ")"
  | realCell x => x.cellText
  | bytes content => Text.quotedBytes content
  | choice type name meaning => choiceText type name meaning.inner
  | operator op => operatorText op
  | method m => choiceText "JoinOperator" m.name (Text.quoted m.toText)
  | columnType t => columnTypeText t
  | predicate p => predicateText p
  | schema s => schemaText s
  | plan p => planText p
  | node n => n.label

def inners : List Export → List String
  | [] => []
  | x :: rest => inner x :: inners rest

def innerEntries : List (Export × Export) → List String
  | [] => []
  | (key, value) :: rest => (inner key ++ ": " ++ inner value) :: innerEntries rest

end

/-- The text of a value on its own. -/
def display : Export → String
  | text s => s
  | intCell n => toString n
  | realCell x => x.toText
  | choice type name _ => type ++ "." ++ name
  | operator op => op.symbol
  | method m => "JoinOperator." ++ m.name
  | columnType t => "FieldType." ++ t.name
  | predicate p => p.toText
  | schema s => s.toText
  | x => inner x

-- ---------------------------------------------------------------------------
-- Members and keys
-- ---------------------------------------------------------------------------

/-- An optional name as a comparand. -/
def nameComparand : Option String → Comparand
  | none => .null
  | some s => .text s

def operatorComparand (op : Comparison) : Comparand :=
  .record "ComparisonOperator" [.text op.symbol]

def columnTypeComparand (t : ColumnType) : Comparand := .record "FieldType" [.text t.name]

def predicateComparand (p : Predicate) : Comparand :=
  .record (predicateType p) [nameComparand p.left.table, nameComparand p.left.column,
    operatorComparand p.operator, nameComparand p.right.table, nameComparand p.right.column]

def schemaComparand (s : Schema) : Comparand :=
  .record "TupleSchema" (s.columns.map fun c => .tuple [.text c.name, columnTypeComparand c.type])

def planComparand (p : Plan) : Comparand :=
  .record "CostCard" [.number p.cost, .number (.whole p.cardinality),
    .tuple (p.order.map predicateComparand)]

mutual

/-- A node of a plan as comparisons see it. -/
def nodeComparand : PlanNode → Comparand
  | .scan table cost card =>
    .record "ExplainNode" [nameComparand table, .number cost, .number (.whole card)]
  | .subplan => .record "ExplainNode" []
  | .join p cost card children =>
    .record "ExplainNode" (predicateComparand p :: .number cost :: .number (.whole card)
      :: nodeComparands children)

def nodeComparands : List PlanNode → List Comparand
  | [] => []
  | n :: rest => nodeComparand n :: nodeComparands rest

end

mutual

/-- The value as comparisons see it. -/
def comparand : Export → Comparand
  | null => .null
  | flag b => .flag b
  | number q => .number q
  | text s => .text s
  | list items => .list (comparands items)
  | tuple items => .tuple (comparands items)
  | intArray items => .intArray (comparands items)
  | realArray items => .realArray (comparands items)
  | set members => .set (comparands members)
  | mapping entries => .mapping (entryComparands entries)
  | intCell n => .intCell n
  | realCell x => .realCell x
  | bytes content => .bytes content
  | choice type name _ => .record type [.text name]
  | operator op => operatorComparand op
  | method m => .record "JoinOperator" [.text m.name]
  | columnType t => columnTypeComparand t
  | predicate p => predicateComparand p
  | schema s => schemaComparand s
  | plan p => planComparand p
  | node n => nodeComparand n

def comparands : List Export → List Comparand
  | [] => []
  | x :: rest => comparand x :: comparands rest

def entryComparands : List (Export × Export) → List (Comparand × Comparand)
  | [] => []
  | (key, value) :: rest => (comparand key, comparand value) :: entryComparands rest

end

mutual

/-- The type of a part that can change, if there is one. -/
def changeable? : Export → Option String
  | list _ => some "list"
  | intArray _ | realArray _ => some "numpy.ndarray"
  | set _ => some "set"
  | mapping _ => some "dict"
  | node _ => some "ExplainNode"
  | tuple items => changeableOf? items
  | _ => none

def changeableOf? : List Export → Option String
  | [] => none
  | x :: rest => (changeable? x).or (changeableOf? rest)

end

/-- The value itself, if it can be a key or a member of a set. -/
def fixed (x : Export) : Outcome Export :=
  match changeable? x with
  | some type => .error (.unhashable type)
  | none => .ok x

/--
Sets the value of the first entry whose key passes a test; the key keeps its place and
its spelling. If there is none, the given entry comes last.
-/
def putWhere (test : Export → Outcome Bool) (entry : Export × Export) :
    List (Export × Export) → Outcome (List (Export × Export))
  | [] => .ok [entry]
  | (key, value) :: rest => do
    if ← test key then return (key, entry.2) :: rest
    else return (key, value) :: (← putWhere test entry rest)

/-- The entries of a mapping with one more entry, if its key cannot change. -/
def withEntry (entries : List (Export × Export)) (key value : Export) :
    Outcome (List (Export × Export)) := do
  let new := (← fixed key).comparand
  putWhere (fun k => Comparand.sameKey k.comparand new) (key, value) entries

/-- The members of a set with one more member, if it cannot change and is not there yet. -/
def withMember (members : List Export) (x : Export) : Outcome (List Export) := do
  let new := (← fixed x).comparand
  if ← members.anyM fun y => Comparand.sameKey y.comparand new then return members
  else return members ++ [x]

-- ---------------------------------------------------------------------------
-- Arrays
-- ---------------------------------------------------------------------------

/-- An array whose rows all have one length. -/
def evenly (x : Export) : Outcome Export := do
  let _ ← Grid.ofComparand x.comparand
  return x

-- ---------------------------------------------------------------------------
-- Documents
-- ---------------------------------------------------------------------------

/-- The type of a column with its size. -/
def columnTypeDocument (t : ColumnType) : Json.Document :=
  .ofFields [("type", .text t.name), ("size", .int t.size)]

mutual

/-- The document of a value. -/
def document : Export → Outcome Json.Document
  | null => .ok .null
  | flag b => .ok (.flag b)
  | number q => .ok (.number q)
  | text s => .ok (.text s)
  | list items | tuple items | intArray items | realArray items => .list <$> documents items
  | set members => do return .ofSet ((members.map display).zip (← documents members))
  | mapping entries => .object <$> entryDocuments entries
  | intCell n => .ok (.int n)
  | realCell x => .ok (.realCell x)
  | bytes _ => .ok (.opaqueValue "bytes")
  | choice _ name _ => .ok (.text name)
  | operator op => .ok (.text op.symbol)
  | method m => .ok (.text m.toText)
  | columnType t => .ok (columnTypeDocument t)
  | predicate p => .ok p.document
  | schema s => .ok (Catalog.schemaDocument s)
  | plan p => .ok p.document
  | node n => .ok n.document

def documents : List Export → Outcome (List Json.Document)
  | [] => .ok []
  | x :: rest => return (← document x) :: (← documents rest)

def entryDocuments :
    List (Export × Export) → Outcome (List (Json.Label × Json.Document))
  | [] => .ok []
  | (k, v) :: rest => do
    return (⟨comparand k, comparand v⟩, ← document v) :: (← entryDocuments rest)

end

end Export

end JoinPlanner
