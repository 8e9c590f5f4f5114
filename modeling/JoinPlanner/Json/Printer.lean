import JoinPlanner.Json.Document
import JoinPlanner.RunSort.Basic

/-!
# JoinPlanner — JSON text

* `Style`            — the choices that a writer has.
* `escaped`          — a text in double quotes.
* `Document.write`   — the text of a document, or why it has none.
-/

namespace JoinPlanner.Json

/-- How a document is written. -/
structure Style where
  itemSeparator : String := ", "
  keySeparator : String := ": "
  /-- What each level is indented by; everything stands on one line without it. -/
  indent : Option String := none
  sortKeys : Bool := false
  /-- Escape every character outside of ASCII. -/
  asciiOnly : Bool := true
  /-- Write infinite and undefined numbers, which JSON does not have. -/
  allowNonFinite : Bool := true
  /-- Leave out entries whose keys cannot be written. -/
  skipKeys : Bool := false
  deriving Repr

/--
The style with the given separators of items and of keys. Without them, a comma at
the end of a line is not followed by a blank.
-/
def Style.withSeparators (style : Style) (separators : Option (String × String)) : Style :=
  match separators with
  | some (item, key) => { style with itemSeparator := item, keySeparator := key }
  | none => { style with itemSeparator := if style.indent.isSome then "," else ", " }

-- ---------------------------------------------------------------------------
-- Texts and numbers
-- ---------------------------------------------------------------------------

/-- The escape of one 16-bit unit. -/
def unitEscape (unit : Nat) : List Char := '\\' :: 'u' :: Text.hexDigits 4 unit

/-- The escape of a character: two units beyond the first 65536 characters. -/
def codeEscape (c : Char) : List Char :=
  if c.toNat < 0x10000 then unitEscape c.toNat
  else
    let rest := c.toNat - 0x10000
    unitEscape (0xd800 + rest / 0x400) ++ unitEscape (0xdc00 + rest % 0x400)

/-- A character inside a text. -/
def escapedChar (asciiOnly : Bool) (c : Char) : List Char :=
  if c == '"' then ['\\', '"']
  else if c == '\\' then ['\\', '\\']
  else if c == '\n' then ['\\', 'n']
  else if c == '\r' then ['\\', 'r']
  else if c == '\t' then ['\\', 't']
  else if c.toNat == 8 then ['\\', 'b']
  else if c.toNat == 12 then ['\\', 'f']
  else if c.toNat < 0x20 || (asciiOnly && 0x7e < c.toNat) then codeEscape c
  else [c]

/-- A text in double quotes. -/
def escaped (asciiOnly : Bool) (text : String) : String :=
  String.ofList ('"' :: text.toList.flatMap (escapedChar asciiOnly) ++ ['"'])

/--
The text of a double, as far as the style allows it; `shown` is what a refusal shows
of it.
-/
def realText (style : Style) (shown : String) (x : Binary64) : Outcome String :=
  let named (name : String) : Outcome String :=
    if style.allowNonFinite then .ok name
    else .error (.nonFiniteNumber (if style.indent.isSome then some shown else none))
  match x with
  | .nan => named "NaN"
  | .infinite false => named "Infinity"
  | .infinite true => named "-Infinity"
  | .finite _ _ => .ok x.toText

/-- The text of a number. -/
def numberText (style : Style) : Quantity → Outcome String
  | .whole n => .ok (toString n)
  | .real x => realText style x.toText x

/-- The text of a double in a cell. -/
def cellText (style : Style) (x : Binary64) : Outcome String := realText style x.cellText x

/-- The text of a truth value. -/
def flagText (b : Bool) : String := if b then "true" else "false"

/-- The text that a key is written as; none if its entry is left out. -/
def keyText? (style : Style) : Comparand → Outcome (Option String)
  | .text s => .ok (some s)
  | .number q => some <$> numberText style q
  | .realCell x => some <$> cellText style x
  | .flag b => .ok (some (flagText b))
  | .null => .ok (some "null")
  | key =>
    if style.skipKeys then .ok none
    else if style.indent.isSome then .error (.badKey key.typeName)
    else .error (.badKey key.qualifiedTypeName)

-- ---------------------------------------------------------------------------
-- Order of entries
-- ---------------------------------------------------------------------------

/-- Entries in order, or as they are. -/
def orderEntries {β : Type} (style : Style) (entries : List (Label × β)) :
    Outcome (List (Label × β)) :=
  if style.sortKeys then sortByRuns (fun a b => a.1.before b.1) entries else .ok entries

-- ---------------------------------------------------------------------------
-- Layout
-- ---------------------------------------------------------------------------

/-- The start of a line at some level; nothing if everything stands on one line. -/
def lineStart (style : Style) (level : Nat) : String :=
  match style.indent with
  | none => ""
  | some indent => "\n" ++ String.join (List.replicate level indent)

/-- Parts between brackets, each on a line of its own if the style indents. -/
def bracketed (style : Style) (level : Nat) (opening closing : String) (parts : List String) :
    String :=
  opening ++ lineStart style (level + 1)
    ++ (style.itemSeparator ++ lineStart style (level + 1)).intercalate parts
    ++ lineStart style level ++ closing

/-- The texts of entries in turn, each key before its value; some are left out. -/
def entryTexts (style : Style) : List (Label × Outcome String) → Outcome (List String)
  | [] => .ok []
  | (label, value) :: rest => do
    match ← keyText? style label.key with
    | none => entryTexts style rest
    | some text =>
      let part := escaped style.asciiOnly text ++ style.keySeparator ++ (← value)
      return part :: (← entryTexts style rest)

/-- The texts of items in turn. -/
def itemTexts : List (Outcome String) → Outcome (List String)
  | [] => .ok []
  | item :: rest => return (← item) :: (← itemTexts rest)

mutual

/-- The text of a document that starts at some level. -/
def Document.writeAt (style : Style) (level : Nat) : Document → Outcome String
  | .null => .ok "null"
  | .flag b => .ok (flagText b)
  | .number q => numberText style q
  | .realCell x => cellText style x
  | .text s => .ok (escaped style.asciiOnly s)
  | .list [] => .ok "[]"
  | .list items => do
    let parts ← itemTexts (Document.writeItems style (level + 1) items)
    return bracketed style level "[" "]" parts
  | .object [] => .ok "\x7b\x7d"
  | .object entries => do
    let ordered ← orderEntries style (Document.writeEntries style (level + 1) entries)
    return bracketed style level "\x7b" "\x7d" (← entryTexts style ordered)
  | .opaqueValue type => .error (.notSerializable type)

def Document.writeItems (style : Style) (level : Nat) : List Document → List (Outcome String)
  | [] => []
  | item :: rest => Document.writeAt style level item :: Document.writeItems style level rest

def Document.writeEntries (style : Style) (level : Nat) :
    List (Label × Document) → List (Label × Outcome String)
  | [] => []
  | (label, value) :: rest =>
    (label, Document.writeAt style level value) :: Document.writeEntries style level rest

end

/-- The text of a document. -/
def Document.write (style : Style) (document : Document) : Outcome String :=
  document.writeAt style 0

/-- The standard style. -/
def standard : Style := {}

end JoinPlanner.Json
