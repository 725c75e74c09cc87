import SchemaToGo.Text.Visible
set_option autoImplicit false

/-!
# Quoted characters and texts

How a character or a text is shown between quotes in a message: the usual short escapes, a
backslash before the quote in use, `\u` with the code point in hexadecimal for everything that is
not visible on its own, and all else as it is.
-/

namespace SchemaToGo.Text

/-- The digits of a code point in hexadecimal, lower case and without leading zeros. -/
def hexDigits (n : Nat) : List Char := Nat.toDigits 16 n

/-- A character as it stands between two `quote`s. -/
def escapeFor (quote : Char) (c : Char) : List Char :=
  if c = '\x00' then ['\\', '0']
  else if c = '\t' then ['\\', 't']
  else if c = '\r' then ['\\', 'r']
  else if c = '\n' then ['\\', 'n']
  else if c = '\\' then ['\\', '\\']
  else if c = quote then ['\\', quote]
  else if isVisible c then [c]
  else ['\\', 'u', '{'] ++ hexDigits c.toNat ++ ['}']

/-- A character between single quotes. -/
def quoteChar (c : Char) : String :=
  String.ofList ('\'' :: escapeFor '\'' c ++ ['\''])

/-- A text between double quotes. -/
def quoteText (s : String) : String :=
  String.ofList ('"' :: s.toList.flatMap (escapeFor '"') ++ ['"'])

end SchemaToGo.Text
