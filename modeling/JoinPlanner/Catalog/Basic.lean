import JoinPlanner.Association
import JoinPlanner.Json.Document

/-!
# JoinPlanner — the catalog

The tables of a database with their rows, and the aliases that queries use. Tables
are numbered in the order in which their names were first registered; registering a
name again replaces the table but keeps its number. The number of a table is not stored:
it is the position of the table in the list of all tables, and a name is looked up among
the names of these. There is no other map of names or numbers that could disagree.

* `Catalog.register`, `Catalog.append`, `Catalog.setAlias` — changes. Each gives the
  catalog afterwards with its outcome, because rows before a faulty one stay.
* `Catalog.resolve`   — the table of an alias.
* `Catalog.pagesFilled` — the pages that the rows of a table fill.
-/

namespace JoinPlanner

/-- A registered table. -/
structure Table where
  name : String
  schema : Schema
  /-- The name of the key column; empty without a key. -/
  primaryKey : String
  rows : List Row
  deriving Repr

/-- Tables by their numbers, and aliases of tables. -/
structure Catalog where
  pageSize : Int
  tables : List Table
  aliases : Association String Nat
  deriving Repr

namespace Catalog

/-- A catalog without tables. -/
def empty (pageSize : Int) : Catalog := ⟨pageSize, [], []⟩

-- ---------------------------------------------------------------------------
-- Access
-- ---------------------------------------------------------------------------

/-- The number of a table. -/
def number? (catalog : Catalog) (name : String) : Option Nat :=
  catalog.tables.findIdx? (·.name == name)

/-- The number of a table that has to exist. -/
def tableNumber (catalog : Catalog) (name : String) : Outcome Nat :=
  match catalog.number? name with
  | some n => .ok n
  | none => .error (.noSuchTable name)

/-- The table of a number that has to exist. -/
def table (catalog : Catalog) (id : Int) : Outcome Table :=
  match if id < 0 then none else catalog.tables[id.toNat]? with
  | some t => .ok t
  | none => .error (.noSuchTableId id)

/-- The number of the table that an alias stands for. -/
def resolve (catalog : Catalog) (aliasName : Option String) : Option Nat :=
  aliasName.bind catalog.aliases.get?

/-- The numbers of all tables. -/
def tableNumbers (catalog : Catalog) : List Nat := List.range catalog.tables.length

-- ---------------------------------------------------------------------------
-- Changes
-- ---------------------------------------------------------------------------

/-- The rows that fit a schema up to the first one that does not, and its error. -/
def acceptRows (schema : Schema) : List Row → List Row × Outcome Unit
  | [] => ([], .ok ())
  | row :: rest =>
    if row.length = schema.columns.length then
      let (accepted, outcome) := acceptRows schema rest
      (row :: accepted, outcome)
    else ([], .error (.rowMismatch row schema))

/-- Appends rows to a table; rows after a faulty one are left out. -/
def append (catalog : Catalog) (name : String) (rows : List Row) : Catalog × Outcome Unit :=
  match catalog.number? name with
  | none => (catalog, .error (.noSuchTable name))
  | some n =>
    match catalog.tables[n]? with
    | none => (catalog, .error (.noSuchTable name))
    | some t =>
      let (accepted, outcome) := acceptRows t.schema rows
      let tables := catalog.tables.set n { t with rows := t.rows ++ accepted }
      ({ catalog with tables }, outcome)

/-- Puts a table at its place: that of its name, or after all others. -/
def placeTable (tables : List Table) (number : Nat) (t : Table) : List Table :=
  if number < tables.length then tables.set number t else tables ++ [t]

/--
Registers a table under its name, which becomes an alias as well, and inserts its
rows. A key that is no column is refused before anything changes.
-/
def register (catalog : Catalog) (name : String) (schema : Schema) (primaryKey : String)
    (rows : List Row) : Catalog × Outcome Nat :=
  if !primaryKey.isEmpty && !schema.names.contains primaryKey then
    (catalog, .error (.keyNotInSchema primaryKey schema))
  else
    let number := (catalog.number? name).getD catalog.tables.length
    let registered : Catalog :=
      { catalog with
        tables := placeTable catalog.tables number ⟨name, schema, primaryKey, []⟩
        aliases := catalog.aliases.put name number }
    let (filled, outcome) := registered.append name rows
    (filled, outcome.map fun _ => number)

/-- Makes a table available under another name. -/
def setAlias (catalog : Catalog) (aliasName name : String) : Catalog × Outcome Unit :=
  match catalog.number? name with
  | none => (catalog, .error (.noSuchTable name))
  | some n => ({ catalog with aliases := catalog.aliases.put aliasName n }, .ok ())

-- ---------------------------------------------------------------------------
-- Pages
-- ---------------------------------------------------------------------------

/-- The pages for a number of rows, by a quotient in doubles that is rounded up. -/
def pagesFor (rows : Nat) (perPage : Int) : Except NumberError Int := do
  (← Binary64.quotient rows perPage).ceil

/-- The pages that a table fills; its tuples must fit on a page. -/
def pagesFilled (catalog : Catalog) (id : Int) : Outcome Int := do
  let t ← catalog.table id
  let perPage := slotsPerPage t.schema catalog.pageSize
  if perPage = 0 then throw (.tupleTooLarge t.name catalog.pageSize)
  pagesFor t.rows.length perPage

-- ---------------------------------------------------------------------------
-- Text
-- ---------------------------------------------------------------------------

/-- A short description. -/
def describe (catalog : Catalog) : String :=
  "InMemoryCatalog(tables=" ++ (Value.list (catalog.tables.map (.text ·.name))).inner ++ ")"

/-- The schema as a document; of several columns of one name the last one stays. -/
def schemaDocument (schema : Schema) : Json.Document :=
  .ofMerged (schema.columns.map fun c => (c.name, .text c.type.name))

/-- All tables without their rows as a document. -/
def document (catalog : Catalog) : Json.Document :=
  .ofFields (catalog.tables.zipIdx.map fun (t, id) => (t.name, .ofFields [
    ("id", .int id),
    ("schema", schemaDocument t.schema),
    ("primary_key", .text t.primaryKey),
    ("tuples", .int t.rows.length)]))

end Catalog

/-- The position of a column in its schema. -/
def Schema.locate (schema : Schema) : ColumnRef → Outcome Nat
  | .name text =>
    match schema.columns.findIdx? (·.name == text) with
    | some i => .ok i
    | none => .error (.noSuchColumn text schema)
  | .position index =>
    if 0 ≤ index ∧ index < schema.columns.length then .ok index.toNat
    else .error (.noSuchPosition index schema)

/-- The type of a column. -/
def Schema.columnType (schema : Schema) (ref : ColumnRef) : Outcome ColumnType := do
  let index ← schema.locate ref
  match schema.columns[index]? with
  | some column => return column.type
  | none => throw (.noSuchPosition index schema)

end JoinPlanner
