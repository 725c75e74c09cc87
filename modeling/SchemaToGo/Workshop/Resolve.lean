import SchemaToGo.Document.Members
import SchemaToGo.Text.Blank
import SchemaToGo.Workshop
import SchemaToGo.Workshop.GoType
set_option autoImplicit false

/-!
# Types of schemas

Every schema stands for a type.  A schema with members of its own stands for a struct, which is
declared on the way; while it is under way its name stands for it, so a schema may contain itself.

Normative source: SPEC_FULL.md section 10, the table of types.
-/

namespace SchemaToGo

/-- A description without the blanks around it, unless nothing is left. -/
def shownDescription (description : Option String) : Option String := do
  let trimmed := Text.trim (← description).toList
  if trimmed.isEmpty then none else some (String.ofList trimmed)

namespace Work

/-- How the types of the schemas inside a schema are found.  The text is the name for a struct that
has no title. -/
abbrev Resolver := Place → String → Work GoType

variable (scope : Scope) (resolve : Resolver)

/-! ## Structs -/

/-- Add the field of a property to a struct. -/
def addField (required : List String) (s : Struct) (e : String × Place) : Work Struct := do
  let (key, property) := e
  if key = "" then throw (scope.complain property.path .emptyPropertyName)
  else
    let name := Naming.freeName s.fields.keys (Naming.forField key)
    let type ← resolve property (s.name ++ name)
    return s.insertField {
      name, jsonName := key, type := type.toText, required := required.contains key
      description := shownDescription property.schema.description }

/-- Declare the struct of a schema under a name. -/
def makeStruct (name : String) (place : Place) : Work Unit := do
  let members ← Members.ofPlace scope place
  let start := { Struct.named name with
    description := shownDescription place.schema.description }
  let s ← members.properties.entries.foldlM (addField scope resolve members.required) start
  declare (.struct s)

/-- The struct of a schema with members, declared unless it is under way. -/
def inlineStruct (place : Place) (context : String) : Work GoType := do
  match ← nameUnderWay? place.path with
  | some name => return .struct name
  | none =>
    let name ← reserve (Naming.forType place.schema.title context)
    within place.path name (makeStruct scope resolve name place)
    return .struct name

/-! ## Other types -/

/-- The type of a target. -/
def targetType (t : Target) : GoType :=
  if t.isStruct then .struct t.name else .named t.name

/-- The type of objects without listed members. -/
def dictionaryType (place : Place) (context : String) : Work GoType := do
  match place.schema.additionalSchema? with
  | some values =>
    let value ← resolve ⟨values, place.path ++ ["additionalProperties"]⟩ (context ++ "Value")
    return .dictionary value
  | none =>
    return if place.schema.type.isSome then .dictionary .anything else .anything

/-- The type of lists. -/
def listType (place : Place) (context : String) : Work GoType := do
  match place.schema.items with
  | some (.uniform item) =>
    return .list (← resolve ⟨item, place.path ++ ["items"]⟩ (context ++ "Items"))
  | _ => return .list .anything

/-- The type of a schema that names the types of its values.  Several types besides `null`, or
none, leave only the type of everything. -/
def namedType (place : Place) (context : String) (names : List String) : Work GoType := do
  match names with
  | ["object"] => dictionaryType resolve place context
  | ["array"] => listType resolve place context
  | ["string"] => return .text
  | ["integer"] => return .integer
  | ["number"] => return .float
  | ["boolean"] => return .boolean
  | [other] => throw (scope.complain (place.path ++ ["type"]) (.unknownType other))
  | _ => return .anything

/-- The type of a schema whose inner schemas are resolved by `resolve`. -/
def typeWith (place : Place) (context : String) : Work GoType := do
  match place.schema.ref with
  | some reference => return targetType (← scope.follow place reference)
  | none =>
    if place.schema.hasOwnMembers then inlineStruct scope resolve place context
    else if place.schema.anyOf.isSome || place.schema.oneOf.isSome then return .anything
    else
      match place.schema.type with
      | none => dictionaryType resolve place context
      | some t => namedType scope resolve place context t.withoutNull

/-- The type of a schema, found in at most so many steps inside each other. -/
def typeWithin (scope : Scope) : Nat → Resolver
  | 0 => fun _ _ => throw .exhausted
  | bound + 1 => typeWith scope (typeWithin scope bound)

/-- The type of a schema. -/
def typeOf (scope : Scope) : Resolver := typeWithin scope scope.document.walkBound

end Work

end SchemaToGo
