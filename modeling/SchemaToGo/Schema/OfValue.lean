import SchemaToGo.Schema.Keyword
import SchemaToGo.Json.Value
set_option autoImplicit false

/-!
# Schemas of values

Under some keywords a value is read whole before it is known what kind it is of.  Here such a value
is taken for a schema, if it is one.  A schema is written as an object or as a list of the values
of its keywords, in their order and as many as are wanted.
-/

namespace SchemaToGo

open Json (Value)

/-! ## Alternatives -/

/-- A value that is a text. -/
def textOfValue? : Value → Option String
  | .string s => some s
  | _ => none

/-- A value that is a list of texts. -/
def textsOfValue? : Value → Option (List String)
  | .array es => es.mapM textOfValue?
  | _ => none

/-- The types a value names: one text, or a list of texts. -/
def TypeNames.ofValue? (v : Value) : Option TypeNames :=
  match v with
  | .string name => some (.single name)
  | v => (textsOfValue? v).map .multiple

/-- What a value says of elements: a list of schemas, or a schema. -/
def Elements.ofValue? {σ : Type} (schema? : Value → Option σ) (v : Value) : Option (Elements σ) :=
  let uniform := (schema? v).map Elements.uniform
  match v with
  | .array es => ((es.mapM schema?).map Elements.perPlace).or uniform
  | _ => uniform

/-- What a value says of members that are not listed: a truth value, or a schema. -/
def OtherValues.ofValue? {σ : Type} (schema? : Value → Option σ) (v : Value) :
    Option (OtherValues σ) :=
  match v with
  | .bool b => some (.allowed b)
  | v => (schema? v).map .schema

/-! ## Schemas -/

namespace Schema

/-- A reading of values in which `null` counts as absent. -/
def absentIfNull {α : Type} (f : Value → Option α) : ReaderT Value Option (Option α)
  | .null => some none
  | v => (f v).map some

/-- The schemas that stand under the names of an object.  Of several with one name the last one
stays. -/
def namedOfValue? (schema? : Value → Option Schema) : Value → Option (List (String × Schema))
  | .object ms => ms.foldlM (fun es m => do return Entries.insert m.1 (← schema? m.2) es) []
  | _ => none

/-- How keywords take values, when `schema?` takes the schemas inside. -/
def partsOfValue (schema? : Value → Option Schema) : Parts (ReaderT Value Option) where
  text := absentIfNull textOfValue?
  type := absentIfNull TypeNames.ofValue?
  named := absentIfNull (namedOfValue? schema?)
  names := absentIfNull textsOfValue?
  items := absentIfNull (Elements.ofValue? schema?)
  values := absentIfNull (OtherValues.ofValue? schema?)
  list := absentIfNull fun
    | .array es => es.mapM schema?
    | _ => none

/-- The schema of an object's members.  Other members are left out; no keyword may be repeated. -/
def ofMembers? (parts : Parts (ReaderT Value Option)) :
    List (String × Value) → List Keyword → Schema → Option Schema
  | [], _, s => some s
  | (name, v) :: rest, seen, s =>
    match Keyword.ofName? name with
    | none => ofMembers? parts rest seen s
    | some k => do
      if k ∈ seen then none
      else ofMembers? parts rest (k :: seen) (← k.assign parts s v)

/-- The schema of a list of keywords' values. -/
def ofElements? (parts : Parts (ReaderT Value Option)) :
    List Value → List Keyword → Schema → Option Schema
  | [], _, s => some s
  | _ :: _, [], _ => none
  | v :: rest, k :: keywords, s => do
    ofElements? parts rest keywords (← k.assign parts s v)

/-- The schema that a value is, if lists and objects in it are nested less than `depth` deep. -/
def ofNestedValue? : Nat → Value → Option Schema
  | 0, _ => none
  | depth + 1, v =>
    let parts := partsOfValue (ofNestedValue? depth)
    match v with
    | .object ms => ofMembers? parts ms [] empty
    | .array es => ofElements? parts es Keyword.all empty
    | _ => none

/-- The schema that a value is. -/
def ofValue? (v : Value) : Option Schema := ofNestedValue? (v.nesting + 1) v

end Schema

end SchemaToGo
