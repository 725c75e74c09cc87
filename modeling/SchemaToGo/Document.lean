import SchemaToGo.Schema.Basic
import SchemaToGo.Pointer
set_option autoImplicit false

/-!
# Documents

A document is a schema with a name for reports.  Its parts are named by the steps from its root.

Normative source: SPEC_FULL.md section 10 for the documents and section 7 for the reports, which
carry the document's name and a pointer to the schema.
-/

namespace SchemaToGo

/-- A schema and the name of the document it makes up. -/
structure Document where
  name : String
  schema : Schema

/-- Steps from the root of a document to a part of it. -/
abbrev Path := List String

instance : LawfulBEq Path := inferInstance

/-- A schema and where it stands in its document. -/
structure Place where
  schema : Schema
  path : Path

namespace Place

/-- The properties of a schema with their keys. -/
def properties (p : Place) : List (String × Place) :=
  (p.schema.properties.getD []).map fun e => (e.1, ⟨e.2, p.path ++ ["properties", e.1]⟩)

/-- The parts that a schema joins with `allOf`. -/
def allOfParts (p : Place) : List Place :=
  (p.schema.allOf.getD []).zipIdx.map fun e => ⟨e.1, p.path ++ ["allOf", toString e.2]⟩

end Place

/-- Bounds the steps of a walk through a document that goes down its nested schemas and starts
afresh at any schema of it at most once. -/
def Document.walkBound (d : Document) : Nat := (d.schema.size + 2) * (d.schema.size + 2)

/-! ## Reports -/

/-- What no type can be found for. -/
inductive Complaint where
  | externalReference (reference : String)
  | unresolvedReference (reference : String)
  | unknownType (name : String)
  | emptyPropertyName
  deriving DecidableEq, Repr

/-- The wording of a complaint. -/
def Complaint.text : Complaint → String
  | externalReference reference => s!"external $ref '{reference}' is not supported"
  | unresolvedReference reference => s!"unresolved $ref '{reference}'"
  | unknownType name => s!"unsupported type '{name}'"
  | emptyPropertyName => "property names must not be empty"

/-- A complaint about a part of a document. -/
structure Unsupported where
  document : String
  path : Path
  complaint : Complaint
  deriving DecidableEq, Repr

namespace Unsupported

/-- The part as the fragment of a reference. -/
def pointer (u : Unsupported) : String := "#" ++ Pointer.ofSegments u.path

/-- The wording of a report. -/
def message (u : Unsupported) : String :=
  s!"{u.complaint.text} at '{u.pointer}' in {u.document}"

end Unsupported

/-- Why documents cannot be turned into declarations. -/
inductive BuildError where
  | unsupported (u : Unsupported)
  /-- a walk took more steps than the bound, which is computed so that none does -/
  | exhausted
  deriving DecidableEq, Repr

/-- The wording of an error. -/
def BuildError.message : BuildError → String
  | unsupported u => u.message
  | exhausted => "the schemas are nested too deeply"

end SchemaToGo
