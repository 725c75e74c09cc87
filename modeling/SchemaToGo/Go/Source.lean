import SchemaToGo.Go.Tag
import SchemaToGo.Go.Format
import SchemaToGo.Text.Split
set_option autoImplicit false

/-!
# Declarations as Go text

Declarations are first written plainly, one after the other and without alignment, and the
formatter then lays the text out.  Aliases come first, then structs, both in the order of their
keys.

Normative source: SPEC_FULL.md section 4.3, steps 1 to 5.
-/

namespace SchemaToGo.Go

/-- The first line of every generated file, by which tools recognise generated code. -/
def generatedMarker : String := "// Code generated by schema-generate. DO NOT EDIT."

/-- A text without its carriage returns. -/
def dropReturns (t : List Char) : List Char := t.filter (· ≠ '\r')

/-- A line of text with its line feed. -/
def line (t : List Char) : List Char := t ++ ['\n']

/-- The comment above a type: its name and the first line of its description, then the other
lines of the description as they are (SPEC_FULL.md section 4.3, step 4). -/
def typeComment (name : List Char) (description : Option String) : List Char :=
  match description with
  | none => line ("// ".toList ++ name)
  | some d =>
    match (Text.splitAll (· = '\n') d.toList).map dropReturns with
    | [] => line ("// ".toList ++ name ++ [' '])
    | first :: others =>
      line ("// ".toList ++ name ++ ' ' :: first) ++
        others.flatMap fun t => line ("// ".toList ++ t)

/-- An alias declaration, after a blank line. -/
def aliasText (a : Alias) : List Char :=
  line [] ++ typeComment a.name.toList none ++
    line ("type ".toList ++ a.name.toList ++ ' ' :: a.type.toList)

/-- A field on a line of its own. -/
def fieldText (f : Field) : List Char :=
  line ('\t' :: f.name.toList ++ ' ' :: f.type.toList ++ ' ' :: fieldTag f)

/-- A struct declaration, after a blank line. -/
def structDeclText (s : Struct) : List Char :=
  line [] ++ typeComment s.name.toList s.description ++
    line ("type ".toList ++ s.name.toList ++ " struct \x7b".toList) ++
    s.fields.values.flatMap fieldText ++ line ['}']

/-- A whole file, before it is laid out. -/
def plainText (d : Declarations) (package : List Char) : List Char :=
  line generatedMarker.toList ++ line [] ++ line ("package ".toList ++ package) ++
    d.aliases.values.flatMap aliasText ++ d.structs.values.flatMap structDeclText

/-- Why declarations cannot be rendered. -/
inductive RenderError where
  | invalidPackageName (name : String)
  /-- the plain text is outside the formatted subset -/
  | malformed (error : FormatError) (plain : String)
  deriving DecidableEq, Repr

/-- The wording of a rendering error. -/
def RenderError.message : RenderError → String
  | invalidPackageName name => s!"invalid package name '{name}'"
  | malformed error plain =>
    "generated Go source is malformed (" ++ error.message ++ "):\n" ++ plain

/-- The Go file that declares the types in a package.  Text that cannot be laid out is an error of
its own, which SPEC_FULL.md section 7 never shows to users. -/
def render (d : Declarations) (package : String) : Except RenderError String :=
  if isPackageName package.toList then
    let plain := String.ofList (plainText d package.toList)
    match format plain with
    | .ok t => .ok t
    | .error e => .error (.malformed e plain)
  else .error (.invalidPackageName package)

end SchemaToGo.Go
