import SchemaToGo.Schema.Parse
import SchemaToGo.Workshop.Build
import SchemaToGo.Go.Source
set_option autoImplicit false

/-!
# Generating Go text

From the texts of schemas to one Go file.  All texts are parsed before anything is built, and the
first error ends the run.

Normative source: SPEC_FULL.md section 2, steps 1 to 7, and section 5: one run parses all inputs,
builds one model and emits once.
-/

namespace SchemaToGo

/-- The text of a schema and a name for reports. -/
structure Source where
  name : String
  text : String
  deriving DecidableEq, Repr

/-- What can be chosen about the generated file. -/
structure Settings where
  package : String := "main"
  deriving DecidableEq, Repr

/-- Why no Go text is generated. -/
inductive GenerateError where
  | parse (e : ParseError)
  | build (e : BuildError)
  | render (e : Go.RenderError)

namespace GenerateError

/-- The wording of an error. -/
def message : GenerateError → String
  | parse e => e.message
  | build e => e.message
  | render e => e.message

/-- The place in a source that an error is about, if it is about one. -/
def location? : GenerateError → Option Location
  | parse e => some e.location
  | _ => none

end GenerateError

/-- The document of a source. -/
def Source.document (s : Source) : Except ParseError Document := do
  return ⟨s.name, ← Schema.parse s.name s.text⟩

/-- The declarations of the types that sources describe. -/
def declarationsOf (sources : List Source) : Except GenerateError Declarations := do
  let documents ← (sources.mapM Source.document).mapError .parse
  (Declarations.ofDocuments documents).mapError .build

/-- The Go file of the types that sources describe. -/
def generate (sources : List Source) (settings : Settings) : Except GenerateError String := do
  let d ← declarationsOf sources
  (Go.render d settings.package).mapError .render

end SchemaToGo
