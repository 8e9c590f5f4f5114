import JoinPlanner.Text.Printable

/-!
# JoinPlanner — quoted text

Texts inside messages are quoted: single quotes, unless the text holds a single
quote and no double one. The quote in use, the backslash and every character that
is not printable are escaped.

* `quoted`      — the quoted form of a text.
* `quotedBytes` — the quoted form of the bytes of a text.
* `hexDigits`   — lower-case hexadecimal of a fixed width.
-/

namespace JoinPlanner.Text

/-- A number in hexadecimal, padded with zeros to `width` digits. -/
def hexDigits (width n : Nat) : List Char :=
  let digits := Nat.toDigits 16 n
  List.replicate (width - digits.length) '0' ++ digits

/-- The escape of a character that is not printable: two, four or eight digits. -/
def escapeCode (c : Char) : List Char :=
  if c.toNat < 0x100 then '\\' :: 'x' :: hexDigits 2 c.toNat
  else if c.toNat < 0x10000 then '\\' :: 'u' :: hexDigits 4 c.toNat
  else '\\' :: 'U' :: hexDigits 8 c.toNat

/-- A character inside quotes. -/
def quotedChar (quote c : Char) : List Char :=
  if c == quote || c == '\\' then ['\\', c]
  else if c == '\n' then ['\\', 'n']
  else if c == '\r' then ['\\', 'r']
  else if c == '\t' then ['\\', 't']
  else if isPrintable c then [c]
  else escapeCode c

/-- The quote that a text is put in. -/
def quoteFor (text : List Char) : Char :=
  if text.contains '\'' && !text.contains '"' then '"' else '\''

/-- The quoted form of a text. -/
def quoted (text : String) : String :=
  let cs := text.toList
  let quote := quoteFor cs
  String.ofList (quote :: cs.flatMap (quotedChar quote) ++ [quote])

/-- A byte inside quotes: only bytes of ASCII stand for a character. -/
def quotedByte (quote : Char) (byte : UInt8) : List Char :=
  if byte < 0x80 then quotedChar quote (Char.ofNat byte.toNat)
  else '\\' :: 'x' :: hexDigits 2 byte.toNat

/-- The quoted form of the bytes of a text. -/
def quotedBytes (text : String) : String :=
  let cs := text.toList
  let quote := quoteFor cs
  let bytes := cs.flatMap String.utf8EncodeChar
  String.ofList ('b' :: quote :: bytes.flatMap (quotedByte quote) ++ [quote])

end JoinPlanner.Text
