import SchemaToGo.Dict
set_option autoImplicit false

/-!
# Schemas

A schema as far as types depend on it.  Every keyword may be absent, and `null` counts as absent.
Keywords that take several kinds of value have a type of their own; what stands under other
keywords leaves no trace.

Normative source: SPEC_FULL.md section 10, whose table names the keywords that types depend on.
-/

namespace SchemaToGo

/-! ## Values of keywords -/

/-- The types that a value may have: one type, or any of several. -/
inductive TypeNames where
  | single (name : String)
  | multiple (names : List String)
  deriving DecidableEq, Repr

/-- The names of the types. -/
def TypeNames.names : TypeNames → List String
  | single name => [name]
  | multiple names => names

/-- The types other than `null`. -/
def TypeNames.withoutNull (t : TypeNames) : List String :=
  t.names.filter (· ≠ "null")

/-- The elements of a list, described place by place or all alike. -/
inductive Elements (σ : Type) where
  /-- a schema for each of the first places -/
  | perPlace (schemas : List σ)
  | uniform (schema : σ)

/-- The values of members that are not listed: allowed or not, or described by a schema. -/
inductive OtherValues (σ : Type) where
  | allowed (b : Bool)
  | schema (s : σ)

/-! ## Schemas -/

/-- A schema. -/
structure Schema where
  ref : Option String
  title : Option String
  description : Option String
  type : Option TypeNames
  properties : Option (List (String × Schema))
  required : Option (List String)
  items : Option (Elements Schema)
  additionalProperties : Option (OtherValues Schema)
  definitions : Option (List (String × Schema))
  /-- what stands under `$defs` -/
  defs : Option (List (String × Schema))
  allOf : Option (List Schema)
  anyOf : Option (List Schema)
  oneOf : Option (List Schema)

namespace Schema

/-- The schema that says nothing. -/
def empty : Schema :=
  ⟨none, none, none, none, none, none, none, none, none, none, none, none, none⟩

instance : Inhabited Schema := ⟨empty⟩

/-- The schema of members that are not listed. -/
def additionalSchema? (s : Schema) : Option Schema :=
  match s.additionalProperties with
  | some (.schema values) => some values
  | _ => none

/-- The schema has properties, or parts that may have some. -/
def hasOwnMembers (s : Schema) : Bool :=
  s.properties.isSome || !(s.allOf.getD []).isEmpty

/-- The schema describes an object with named members (SPEC_FULL.md section 10, step 2). -/
def describesObject (s : Schema) : Bool :=
  s.hasOwnMembers ||
    ((s.type.map TypeNames.withoutNull == some ["object"]) && s.additionalSchema?.isNone)

/-- A schema with a name, in a container of such schemas. -/
structure Definition where
  container : String
  key : String
  schema : Schema

/-- The schemas that stand under names, those under `definitions` first. -/
def definitionList (s : Schema) : List Definition :=
  (s.definitions.getD []).map (fun e => ⟨"definitions", e.1, e.2⟩) ++
    (s.defs.getD []).map (fun e => ⟨"$defs", e.1, e.2⟩)

/-! ## Size -/

mutual

/-- The number of schemas in a schema, itself included. -/
def size : Schema → Nat
  | ⟨_, _, _, _, properties, _, items, values, definitions, defs, allOf, anyOf, oneOf⟩ =>
    1 + entriesSize? properties + itemsSize? items + valuesSize? values +
      entriesSize? definitions + entriesSize? defs + listSize? allOf + listSize? anyOf +
      listSize? oneOf

/-- The number of schemas in entries that may be absent. -/
def entriesSize? : Option (List (String × Schema)) → Nat
  | none => 0
  | some es => entriesSize es

/-- The number of schemas in entries. -/
def entriesSize : List (String × Schema) → Nat
  | [] => 0
  | (_, s) :: rest => size s + entriesSize rest

/-- The number of schemas in a list that may be absent. -/
def listSize? : Option (List Schema) → Nat
  | none => 0
  | some ss => listSize ss

/-- The number of schemas in a list. -/
def listSize : List Schema → Nat
  | [] => 0
  | s :: rest => size s + listSize rest

/-- The number of schemas for elements. -/
def itemsSize? : Option (Elements Schema) → Nat
  | none => 0
  | some (.perPlace ss) => listSize ss
  | some (.uniform s) => size s

/-- The number of schemas for values. -/
def valuesSize? : Option (OtherValues Schema) → Nat
  | none => 0
  | some (.allowed _) => 0
  | some (.schema s) => size s

end

end Schema

end SchemaToGo
