import SchemaToGo.Go.File.Parse
import SchemaToGo.Go.File.Print
set_option autoImplicit false

/-!
# Formatting

A text of the subset, in canonical layout.

Normative source: SPEC_FULL.md section 4.4.
-/

namespace SchemaToGo.Go

/-- The file that a text says. -/
def readFile (t : List Char) : Except FormatError (List Item) := do
  parse (← scan t)

/-- A text in canonical layout, or the first place where it leaves the subset. -/
def format (source : String) : Except FormatError String := do
  return String.ofList (fileText (← readFile source.toList))

end SchemaToGo.Go
