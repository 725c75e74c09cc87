import SchemaToGo.Declarations
import SchemaToGo.Document
import SchemaToGo.Naming
set_option autoImplicit false

/-!
# The workshop

Where declarations are made: what has been declared so far, which names are taken, and which
nested structs are under way.  A step that fails leaves the workshop as it was at the failure.

Normative source: SPEC_FULL.md section 10: documents share one space of names, and an inline struct
that is being built is referred to and not built again.
-/

namespace SchemaToGo

/-- The state of the work. -/
structure Workshop where
  /-- the types declared so far, the last one first -/
  made : List Declaration
  /-- the names of types that are declared or going to be -/
  reserved : List String
  /-- the nested structs under way in the current document, with their names -/
  underWay : List (Path × String)

namespace Workshop

/-- Before any work. -/
def empty : Workshop := ⟨[], [], []⟩

/-- What has been declared so far. -/
def declarations (w : Workshop) : Declarations := .ofInserts w.made

/-- Start on the struct at a path. -/
def enter (w : Workshop) (path : Path) (name : String) : Workshop :=
  { w with underWay := (path, name) :: w.underWay }

/-- Be done with the struct at a path. -/
def leave (w : Workshop) (path : Path) : Workshop :=
  { w with underWay := w.underWay.filter fun e => e.1 ≠ path }

end Workshop

/-- A step of the work. -/
abbrev Work (α : Type) := ExceptT BuildError (StateM Workshop) α

namespace Work

/-- Take a name, with a suffix if it is taken already. -/
def reserve (base : String) : Work String := do
  let w ← get
  let name := Naming.freeName w.reserved base
  set { w with reserved := name :: w.reserved }
  return name

/-- The name of the struct at a path, if it is under way. -/
def nameUnderWay? (path : Path) : Work (Option String) :=
  return (← get).underWay.lookup path

/-- Do a step while the struct at a path is under way. -/
def within {α : Type} (path : Path) (name : String) (step : Work α) : Work α := fun w =>
  let (result, w) := step (w.enter path name)
  (result, w.leave path)

/-- Declare a type. -/
def declare (e : Declaration) : Work Unit :=
  modify fun w => { w with made := e :: w.made }

end Work

end SchemaToGo
