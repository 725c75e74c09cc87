import SchemaToGo.Schema.Read
import SchemaToGo.Schema.EnclosingKey
import SchemaToGo.Position
import SchemaToGo.Text.Split
set_option autoImplicit false

/-!
# Schemas of texts

A text is a schema if it holds one and nothing else but blanks.  If it is none, the report says
what was expected and where, by name of the document, byte offset and position.

Normative source: SPEC_FULL.md section 7, on `SchemaSyntax` and `SchemaTypeMismatch`.
-/

namespace SchemaToGo

/-! ## Reports -/

/-- A place in a document.  The position is missing where the document ends in the empty line that
the place is in. -/
structure Location where
  document : String
  offset : Nat
  position : Except OutOfRange Position

namespace Location

/-- The place where reading stood when `index` bytes of a document had been read: the last byte
read on the same line, or the line's start. -/
def ofIndex (document : String) (bytes : List UInt8) (index : Nat) : Location :=
  let (line, column) := Position.lineColumn bytes index
  let offset := Position.offsetAt bytes line column
  ⟨document, offset, Position.locate bytes offset⟩

/-- The text of a location in messages. -/
def text (l : Location) : String :=
  match l.position with
  | .ok p => s!"{l.document} {p.text} (byte offset {l.offset})"
  | .error _ => s!"{l.document} byte offset {l.offset}"

end Location

/-- What a failed reading reports: what is wrong, and the line and column where reading stood. -/
def Json.Failure.report (failure : Json.Failure) (bytes : List UInt8) : String :=
  let (line, column) := Position.lineColumn bytes failure.index
  failure.cause.message ++ s!" at line {line} column {column}"

/-- A report without the line and column that it ends with. -/
def withoutPlace (report : String) : String :=
  match Text.beforeLast? " at line ".toList report.toList with
  | some before => String.ofList before
  | none => report

/-- Why a text is no schema.  What is wrong is told in the words of the reading that failed. -/
inductive ParseError where
  /-- it is no JSON text -/
  | malformed (location : Location) (detail : String)
  /-- it is one, but a value in it does not fit -/
  | mismatch (location : Location) (keyword : Option String) (detail : String)

namespace ParseError

/-- The place that an error is about. -/
def location : ParseError → Location
  | malformed l _ => l
  | mismatch l _ _ => l

/-- What is wrong at the place. -/
def detail : ParseError → String
  | malformed _ detail => detail
  | mismatch _ _ detail => detail

/-- The wording of an error. -/
def message : ParseError → String
  | malformed l detail =>
    s!"cannot parse JSON schema due to a syntax error at {l.text}: {detail}"
  | mismatch l keyword detail =>
    "the JSON value cannot be converted into the schema" ++
      (match keyword with
      | none => ""
      | some k => s!" keyword '{k}'") ++
      s!": {detail}. See input file {l.text}"

/-- The error of a failed reading.  Misfits are reported with the key of the member they are in. -/
def ofFailure (document : String) (bytes : List UInt8) (failure : Json.Failure) : ParseError :=
  let location := Location.ofIndex document bytes failure.index
  let detail := withoutPlace (failure.report bytes)
  match failure.cause with
  | .fault _ => .malformed location detail
  | .misfit _ => .mismatch location (Json.keyBefore? bytes location.offset) detail

end ParseError

/-! ## Parsing -/

namespace Schema

/-- How many lists and objects may stand inside each other in a text. -/
def nestingLimit : Nat := 127

/-- The schema that makes up a text. -/
def readText (bytes : List UInt8) : Except Json.Failure Schema := do
  let (s, rest) ← read bytes.length nestingLimit (Json.Cursor.start bytes)
  let rest := rest.skipBlanks
  if rest.rest.isEmpty then return s
  else throw ⟨.fault .trailingCharacters, rest.nextIndex⟩

/-- The schema of a document's text. -/
def parse (document text : String) : Except ParseError Schema :=
  let bytes := Utf8.encode text
  match readText bytes with
  | .ok s => .ok s
  | .error failure => .error (ParseError.ofFailure document bytes failure)

end Schema

end SchemaToGo
