import SchemaToGo.Text.Category
set_option autoImplicit false

/-!
# Go identifiers

An identifier is a letter followed by letters and digits, and no keyword.  Letters and digits are
those of all scripts, as far as Unicode 16 has them; the underscore counts as a letter.

Normative source: SPEC_FULL.md section 10, on names, for the letters and digits, and section 6 for
names of packages.
-/

namespace SchemaToGo.Go

/-- The words that are no identifiers. -/
def keywords : List (List Char) :=
  ["break".toList, "case".toList, "chan".toList, "const".toList, "continue".toList,
    "default".toList, "defer".toList, "else".toList, "fallthrough".toList, "for".toList,
    "func".toList, "go".toList, "goto".toList, "if".toList, "import".toList,
    "interface".toList, "map".toList, "package".toList, "range".toList, "return".toList,
    "select".toList, "struct".toList, "switch".toList, "type".toList, "var".toList]

/-- The keywords that may end a statement. -/
def closingKeywords : List (List Char) :=
  ["break".toList, "continue".toList, "fallthrough".toList, "return".toList]

/-- The character is too new to stand in an identifier. -/
def isTooNew (c : Char) : Bool := Text.CodeSet.newInUnicode17.contains c

/-- A letter: the underscore or a character of a letter category. -/
def isLetter (c : Char) : Bool := c == '_' || (Text.isLetter c && !isTooNew c)

/-- A digit of any script. -/
def isDigit (c : Char) : Bool := Text.isDecimalDigit c && !isTooNew c

/-- A character that may stand in an identifier after the first. -/
def isWordChar (c : Char) : Bool := isLetter c || isDigit c

/-- The word is a keyword. -/
def isKeyword (word : List Char) : Bool := keywords.contains word

/-- The text is an identifier. -/
def isIdentifier : List Char → Bool
  | [] => false
  | c :: rest => isLetter c && rest.all isWordChar && !isKeyword (c :: rest)

/-- The text may name a package: any identifier but the blank one. -/
def isPackageName (name : List Char) : Bool := name != ['_'] && isIdentifier name

end SchemaToGo.Go
