import SchemaToGo.Document
import SchemaToGo.Dict
set_option autoImplicit false

/-!
# Scopes

The schemas of a document that references can name: its root, if that describes a type, and its
definitions.  They are kept under their pointers, so a reference finds its target whichever of
several spellings of the pointer it uses.

Normative source: SPEC_FULL.md section 10, steps 1 to 3, for what can be named, and section 7 for
references that name nothing.
-/

namespace SchemaToGo

/-- A schema that references can name, and the name of its type. -/
structure Target where
  name : String
  place : Place

/-- The target is declared as a struct, not as an alias. -/
def Target.isStruct (t : Target) : Bool := t.place.schema.describesObject

/-- A document and its targets, by pointer. -/
structure Scope where
  document : Document
  targets : Dict Target

namespace Scope

/-- The target that a reference names. -/
def target (scope : Scope) (reference : String) : Except Complaint Target :=
  match reference.toList with
  | '#' :: fragment =>
    let target := do
      let steps ← Pointer.segments? (String.ofList fragment)
      scope.targets.find? (Pointer.ofSegments steps)
    match target with
    | some t => .ok t
    | none => .error (.unresolvedReference reference)
  | _ => .error (.externalReference reference)

/-- The report of a complaint about a part of the document. -/
def complain (scope : Scope) (path : Path) (complaint : Complaint) : BuildError :=
  .unsupported ⟨scope.document.name, path, complaint⟩

/-- The target that a reference at a place names. -/
def follow (scope : Scope) (place : Place) (reference : String) : Except BuildError Target :=
  match scope.target reference with
  | .ok t => .ok t
  | .error complaint => .error (scope.complain place.path complaint)

end Scope

end SchemaToGo
