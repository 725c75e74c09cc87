import SchemaToGo.Document.Scope
set_option autoImplicit false

/-!
# Members

The properties and required keys of a schema together with those of the schemas it refers to and
joins.  Of several properties with one key the first one counts, in the order: own properties,
those of the referenced schema, those of the joined schemas.  A reference is followed once for each
target, so cycles of references end.

Normative source: SPEC_FULL.md section 10, the row on `allOf`: properties and `required` are merged,
references are followed, and cycles are ignored.
-/

namespace SchemaToGo

/-- Properties and required keys found so far. -/
structure Members where
  properties : Dict Place
  required : List String
  /-- the targets of references that have been followed -/
  followed : List Path

namespace Members

/-- Nothing found. -/
def empty : Members := ⟨∅, [], []⟩

/-- Add a property, unless there is one with its key. -/
def addProperty (ms : Members) (e : String × Place) : Members :=
  if ms.properties.contains e.1 then ms
  else { ms with properties := ms.properties.insert e.1 e.2 }

/-- Add what a schema says itself. -/
def addOwn (ms : Members) (place : Place) : Members :=
  let ms := place.properties.foldl addProperty ms
  { ms with required := ms.required ++ place.schema.required.getD [] }

/-- Add the members of a schema, in at most so many steps inside each other. -/
def collect (scope : Scope) : Nat → Place → Members → Except BuildError Members
  | 0, _, _ => .error .exhausted
  | bound + 1, place, ms => do
    let ms := ms.addOwn place
    let ms ←
      match place.schema.ref with
      | none => pure ms
      | some reference => do
        let target ← scope.follow place reference
        if target.place.path ∈ ms.followed then pure ms
        else
          collect scope bound target.place
            { ms with followed := target.place.path :: ms.followed }
    place.allOfParts.foldlM (fun ms part => collect scope bound part ms) ms

/-- The members of a schema. -/
def ofPlace (scope : Scope) (place : Place) : Except BuildError Members :=
  collect scope scope.document.walkBound place empty

end Members

end SchemaToGo
