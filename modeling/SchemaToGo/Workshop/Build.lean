import SchemaToGo.Workshop.Resolve
set_option autoImplicit false

/-!
# Declarations of documents

Documents are worked on in their order.  In each of them the root and the definitions reserve their
names first, so that references can be resolved before their targets are declared; then all of
them are declared in the order of their pointers.  All documents share one space of names.

Normative source: SPEC_FULL.md section 10, steps 1 to 3.
-/

namespace SchemaToGo

/-- A root describes a type unless it only carries definitions. -/
def Schema.describesType (root : Schema) : Bool :=
  root.describesObject || root.type.isSome || root.ref.isSome

/-- The schemas of a document that are declared under names, with the names they ask for. -/
def Document.namedPlaces (d : Document) : List (Place × String) :=
  (if d.schema.describesType then
    [(⟨d.schema, []⟩, Naming.forType d.schema.title Naming.rootName)]
  else []) ++
    d.schema.definitionList.map fun e =>
      (⟨e.schema, [e.container, e.key]⟩, Naming.forType none e.key)

namespace Work

/-- Reserve a name for a schema and make it a target. -/
def addTarget (targets : Dict Target) (e : Place × String) : Work (Dict Target) := do
  let name ← reserve e.2
  return targets.insert (Pointer.ofSegments e.1.path) ⟨name, e.1⟩

/-- The scope of a document.  All names are claimed before anything is declared, so that references
resolve to them (SPEC_FULL.md section 10, steps 1 and 2). -/
def openScope (d : Document) : Work Scope := do
  return ⟨d, ← d.namedPlaces.foldlM addTarget ∅⟩

/-- Declare the type of a target: a struct or an alias (SPEC_FULL.md section 10, steps 2 and 3). -/
def declareTarget (scope : Scope) (t : Target) : Work Unit := do
  if t.isStruct then makeStruct scope (typeOf scope) t.name t.place
  else
    let type ← typeOf scope t.place t.name
    declare (.alias ⟨t.name, type.toText⟩)

/-- Declare the types of a document. -/
def declareDocument (d : Document) : Work Unit := do
  let scope ← openScope d
  scope.targets.values.forM (declareTarget scope)

end Work

/-- The workshop after all documents have been worked on. -/
def Workshop.ofDocuments (documents : List Document) : Except BuildError Workshop :=
  match documents.forM Work.declareDocument Workshop.empty with
  | (.ok (), w) => .ok w
  | (.error e, _) => .error e

/-- The types that documents declare. -/
def Declarations.ofDocuments (documents : List Document) : Except BuildError Declarations :=
  (Workshop.ofDocuments documents).map Workshop.declarations

end SchemaToGo
