import SchemaToGo.Declarations
import SchemaToGo.Text.Blank
set_option autoImplicit false

/-!
# Struct tags

A field's tag tells the JSON name of the field and whether an empty value is left out.  It is a
string literal around `json:"…"`: a raw literal, or an interpreted one when the name holds a
backquote.

Normative source: SPEC_FULL.md section 4.3, step 5 and what is added to it on the escaping of JSON
names.
-/

namespace SchemaToGo.Go

/-- The value of a hexadecimal digit as a character, in lower case. -/
def hexDigit (n : Nat) : Char := if n < 10 then Char.ofNat (48 + n) else Char.ofNat (87 + n)

/-- A character of a tag value, as it stands between the value's quotes. -/
def escapeTagChar (c : Char) : List Char :=
  if c = '\\' then ['\\', '\\']
  else if c = '"' then ['\\', '"']
  else if c = '\n' then ['\\', 'n']
  else if c = '\r' then ['\\', 'r']
  else if c = '\t' then ['\\', 't']
  else if Text.isControl c then
    ['\\', 'u', '0', '0', hexDigit (c.toNat / 16 % 16), hexDigit (c.toNat % 16)]
  else [c]

/-- A JSON name as it stands between the quotes of a tag value. -/
def escapeTagValue (value : List Char) : List Char := value.flatMap escapeTagChar

/-- A character of a tag, as it stands in an interpreted literal. -/
def escapeLiteralChar (c : Char) : List Char :=
  if c = '\\' then ['\\', '\\'] else if c = '"' then ['\\', '"'] else [c]

/-- What a field's tag says. -/
def tagText (f : Field) : List Char :=
  "json:\"".toList ++ escapeTagValue f.jsonName.toList ++
    (if f.required then [] else ",omitempty".toList) ++ ['"']

/-- The literal of a tag. -/
def tagLiteral (tag : List Char) : List Char :=
  if tag.contains '`' then '"' :: tag.flatMap escapeLiteralChar ++ ['"']
  else '`' :: tag ++ ['`']

/-- A field's tag as a literal. -/
def fieldTag (f : Field) : List Char := tagLiteral (tagText f)

end SchemaToGo.Go
