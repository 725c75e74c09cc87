import SchemaToGo.Schema.Basic
import Mathlib.Logic.Relation
set_option autoImplicit false

/-!
# Schemas up to `null`

Types that differ in `null` only, and in whether one name is written as a list, name the same other
types.  `Retypes` exchanges such types at one place of a schema, however deep.  `stripNull` brings
all types of a schema into one form, so schemas that can be retyped into each other have one
stripped form between them; and it leaves everything else as it is, the size included.
-/

namespace SchemaToGo

/-- The same types without `null`, in a list. -/
def TypeNames.stripNull (t : TypeNames) : TypeNames := .multiple t.withoutNull

@[simp] theorem TypeNames.withoutNull_stripNull (t : TypeNames) :
    t.stripNull.withoutNull = t.withoutNull := by
  show (t.names.filter (· ≠ "null")).filter (· ≠ "null") = t.names.filter (· ≠ "null")
  rw [List.filter_filter]
  exact List.filter_congr fun name _ => Bool.and_self _

/-- What `f` makes of the schemas of elements. -/
def Elements.map {σ τ : Type} (f : σ → τ) : Elements σ → Elements τ
  | perPlace ss => perPlace (ss.map f)
  | uniform s => uniform (f s)

/-- What `f` makes of the schema of values. -/
def OtherValues.map {σ τ : Type} (f : σ → τ) : OtherValues σ → OtherValues τ
  | allowed b => allowed b
  | schema s => schema (f s)

namespace Schema

/-! ## Leaving `null` out -/

mutual

/-- The schema without `null` among its types and those of all schemas in it. -/
def stripNull : Schema → Schema
  | ⟨ref, title, description, type, properties, required, items, values, definitions, defs, allOf,
      anyOf, oneOf⟩ =>
    ⟨ref, title, description, type.map TypeNames.stripNull, stripEntries? properties, required,
      stripItems? items, stripValues? values, stripEntries? definitions, stripEntries? defs,
      stripList? allOf, stripList? anyOf, stripList? oneOf⟩

/-- Entries that may be absent, without `null`. -/
def stripEntries? : Option (List (String × Schema)) → Option (List (String × Schema))
  | none => none
  | some es => some (stripEntries es)

/-- Entries without `null`. -/
def stripEntries : List (String × Schema) → List (String × Schema)
  | [] => []
  | (key, s) :: rest => (key, stripNull s) :: stripEntries rest

/-- A list that may be absent, without `null`. -/
def stripList? : Option (List Schema) → Option (List Schema)
  | none => none
  | some ss => some (stripList ss)

/-- A list without `null`. -/
def stripList : List Schema → List Schema
  | [] => []
  | s :: rest => stripNull s :: stripList rest

/-- The schemas for elements, without `null`. -/
def stripItems? : Option (Elements Schema) → Option (Elements Schema)
  | none => none
  | some (.perPlace ss) => some (.perPlace (stripList ss))
  | some (.uniform s) => some (.uniform (stripNull s))

/-- The schema for values, without `null`. -/
def stripValues? : Option (OtherValues Schema) → Option (OtherValues Schema)
  | none => none
  | some (.allowed b) => some (.allowed b)
  | some (.schema s) => some (.schema (stripNull s))

end

theorem stripEntries?_eq_map (es : Option (List (String × Schema))) :
    stripEntries? es = es.map (List.map (Prod.map id stripNull)) := by
  cases es with
  | none => rw [stripEntries?, Option.map_none]
  | some es =>
    rw [stripEntries?, Option.map_some]
    refine congrArg some ?_
    induction es with
    | nil => rw [stripEntries, List.map_nil]
    | cons e rest ih =>
      rw [stripEntries, ih, List.map_cons]
      rfl

theorem stripList_eq_map (ss : List Schema) : stripList ss = ss.map stripNull := by
  induction ss with
  | nil => rw [stripList, List.map_nil]
  | cons s rest ih => rw [stripList, ih, List.map_cons]

theorem stripList?_eq_map (ss : Option (List Schema)) :
    stripList? ss = ss.map (List.map stripNull) := by
  cases ss with
  | none => rw [stripList?, Option.map_none]
  | some ss => rw [stripList?, Option.map_some, stripList_eq_map]

theorem stripItems?_eq_map (items : Option (Elements Schema)) :
    stripItems? items = items.map (Elements.map stripNull) := by
  match items with
  | none => rw [stripItems?, Option.map_none]
  | some (.perPlace ss) => rw [stripItems?, stripList_eq_map, Option.map_some, Elements.map]
  | some (.uniform s) => rw [stripItems?, Option.map_some, Elements.map]

theorem stripValues?_eq_map (values : Option (OtherValues Schema)) :
    stripValues? values = values.map (OtherValues.map stripNull) := by
  match values with
  | none => rw [stripValues?, Option.map_none]
  | some (.allowed b) => rw [stripValues?, Option.map_some, OtherValues.map]
  | some (.schema s) => rw [stripValues?, Option.map_some, OtherValues.map]

/-- Keywords that hold schemas are stripped inside, and all others but the types stay. -/
theorem stripNull_eq (s : Schema) :
    s.stripNull =
      { s with
        type := s.type.map TypeNames.stripNull
        properties := s.properties.map (List.map (Prod.map id stripNull))
        items := s.items.map (Elements.map stripNull)
        additionalProperties := s.additionalProperties.map (OtherValues.map stripNull)
        definitions := s.definitions.map (List.map (Prod.map id stripNull))
        defs := s.defs.map (List.map (Prod.map id stripNull))
        allOf := s.allOf.map (List.map stripNull)
        anyOf := s.anyOf.map (List.map stripNull)
        oneOf := s.oneOf.map (List.map stripNull) } := by
  cases s
  simp only [stripNull, stripEntries?_eq_map, stripItems?_eq_map, stripValues?_eq_map,
    stripList?_eq_map]

/-! ## What is asked of schemas -/

section

variable (s : Schema)

theorem ref_stripNull : s.stripNull.ref = s.ref := by rw [stripNull_eq]

theorem required_stripNull : s.stripNull.required = s.required := by rw [stripNull_eq]

theorem title_stripNull : s.stripNull.title = s.title := by rw [stripNull_eq]

theorem description_stripNull : s.stripNull.description = s.description := by rw [stripNull_eq]

theorem items_stripNull : s.stripNull.items = s.items.map (Elements.map stripNull) := by
  rw [stripNull_eq]

theorem type_stripNull : s.stripNull.type = s.type.map TypeNames.stripNull := by rw [stripNull_eq]

theorem isSome_anyOf_stripNull : s.stripNull.anyOf.isSome = s.anyOf.isSome := by
  rw [stripNull_eq, Option.isSome_map]

theorem isSome_oneOf_stripNull : s.stripNull.oneOf.isSome = s.oneOf.isSome := by
  rw [stripNull_eq, Option.isSome_map]

theorem withoutNull_stripNull :
    s.stripNull.type.map TypeNames.withoutNull = s.type.map TypeNames.withoutNull := by
  rw [stripNull_eq, Option.map_map]
  exact congrArg (Option.map · s.type) (funext TypeNames.withoutNull_stripNull)

theorem additionalSchema?_stripNull :
    s.stripNull.additionalSchema? = s.additionalSchema?.map stripNull := by
  unfold additionalSchema?
  rw [stripNull_eq]
  match s.additionalProperties with
  | none => rfl
  | some (.allowed _) => rfl
  | some (.schema _) => rfl

theorem hasOwnMembers_stripNull : s.stripNull.hasOwnMembers = s.hasOwnMembers := by
  unfold hasOwnMembers
  rw [stripNull_eq]
  cases s.allOf with
  | none => simp only [Option.isSome_map, Option.map_none]
  | some ss => simp only [Option.isSome_map, Option.map_some, Option.getD_some, List.isEmpty_map]

theorem describesObject_stripNull : s.stripNull.describesObject = s.describesObject := by
  unfold describesObject
  rw [hasOwnMembers_stripNull, withoutNull_stripNull, additionalSchema?_stripNull]
  cases s.additionalSchema? with
  | none => rfl
  | some _ => rfl

theorem getD_stripEntries (es : Option (List (String × Schema))) :
    (es.map (List.map (Prod.map id stripNull))).getD [] =
      (es.getD []).map (Prod.map id stripNull) :=
  Option.getD_map (List.map (Prod.map id stripNull)) [] es

theorem definitionList_stripNull : s.stripNull.definitionList =
    s.definitionList.map fun e => { e with schema := e.schema.stripNull } := by
  unfold definitionList
  rw [stripNull_eq]
  dsimp only
  rw [getD_stripEntries, getD_stripEntries, List.map_append]
  simp only [List.map_map]
  rfl

end

/-! ## Size -/

mutual

theorem size_stripNull : ∀ s : Schema, s.stripNull.size = s.size
  | ⟨_, _, _, _, properties, _, items, values, definitions, defs, allOf, anyOf, oneOf⟩ => by
    rw [stripNull, size, size, entriesSize?_strip properties, itemsSize?_strip items,
      valuesSize?_strip values, entriesSize?_strip definitions, entriesSize?_strip defs,
      listSize?_strip allOf, listSize?_strip anyOf, listSize?_strip oneOf]

theorem entriesSize?_strip : ∀ es : Option (List (String × Schema)),
    entriesSize? (stripEntries? es) = entriesSize? es
  | none => by rw [stripEntries?]
  | some es => by rw [stripEntries?, entriesSize?, entriesSize?, entriesSize_strip es]

theorem entriesSize_strip : ∀ es : List (String × Schema),
    entriesSize (stripEntries es) = entriesSize es
  | [] => by rw [stripEntries]
  | (_, s) :: rest => by
    rw [stripEntries, entriesSize, entriesSize, size_stripNull s, entriesSize_strip rest]

theorem listSize?_strip : ∀ ss : Option (List Schema), listSize? (stripList? ss) = listSize? ss
  | none => by rw [stripList?]
  | some ss => by rw [stripList?, listSize?, listSize?, listSize_strip ss]

theorem listSize_strip : ∀ ss : List Schema, listSize (stripList ss) = listSize ss
  | [] => by rw [stripList]
  | s :: rest => by rw [stripList, listSize, listSize, size_stripNull s, listSize_strip rest]

theorem itemsSize?_strip : ∀ items : Option (Elements Schema),
    itemsSize? (stripItems? items) = itemsSize? items
  | none => by rw [stripItems?]
  | some (.perPlace ss) => by rw [stripItems?, itemsSize?, itemsSize?, listSize_strip ss]
  | some (.uniform s) => by rw [stripItems?, itemsSize?, itemsSize?, size_stripNull s]

theorem valuesSize?_strip : ∀ values : Option (OtherValues Schema),
    valuesSize? (stripValues? values) = valuesSize? values
  | none => by rw [stripValues?]
  | some (.allowed _) => by rw [stripValues?]
  | some (.schema s) => by rw [stripValues?, valuesSize?, valuesSize?, size_stripNull s]

end

/-! ## Retyping -/

/-- The types of one schema in a schema are exchanged for others that are the same without
`null`. -/
inductive Retypes : Schema → Schema → Prop
  | type (s : Schema) {t t' : TypeNames} (h : t.withoutNull = t'.withoutNull) :
      Retypes { s with type := some t } { s with type := some t' }
  | properties (s : Schema) (front back : List (String × Schema)) (key : String)
      {part part' : Schema} (h : Retypes part part') :
      Retypes { s with properties := some (front ++ (key, part) :: back) }
        { s with properties := some (front ++ (key, part') :: back) }
  | place (s : Schema) (front back : List Schema) {part part' : Schema} (h : Retypes part part') :
      Retypes { s with items := some (.perPlace (front ++ part :: back)) }
        { s with items := some (.perPlace (front ++ part' :: back)) }
  | items (s : Schema) {part part' : Schema} (h : Retypes part part') :
      Retypes { s with items := some (.uniform part) } { s with items := some (.uniform part') }
  | additionalProperties (s : Schema) {part part' : Schema} (h : Retypes part part') :
      Retypes { s with additionalProperties := some (.schema part) }
        { s with additionalProperties := some (.schema part') }
  | definitions (s : Schema) (front back : List (String × Schema)) (key : String)
      {part part' : Schema} (h : Retypes part part') :
      Retypes { s with definitions := some (front ++ (key, part) :: back) }
        { s with definitions := some (front ++ (key, part') :: back) }
  | defs (s : Schema) (front back : List (String × Schema)) (key : String)
      {part part' : Schema} (h : Retypes part part') :
      Retypes { s with defs := some (front ++ (key, part) :: back) }
        { s with defs := some (front ++ (key, part') :: back) }
  | allOf (s : Schema) (front back : List Schema) {part part' : Schema} (h : Retypes part part') :
      Retypes { s with allOf := some (front ++ part :: back) }
        { s with allOf := some (front ++ part' :: back) }
  | anyOf (s : Schema) (front back : List Schema) {part part' : Schema} (h : Retypes part part') :
      Retypes { s with anyOf := some (front ++ part :: back) }
        { s with anyOf := some (front ++ part' :: back) }
  | oneOf (s : Schema) (front back : List Schema) {part part' : Schema} (h : Retypes part part') :
      Retypes { s with oneOf := some (front ++ part :: back) }
        { s with oneOf := some (front ++ part' :: back) }

/-- The types of any schemas in a schema are exchanged. -/
def Retyped : Schema → Schema → Prop := Relation.ReflTransGen Retypes

theorem Retypes.stripNull_eq {s s' : Schema} (h : Retypes s s') : s.stripNull = s'.stripNull := by
  induction h with
  | type s h =>
    rw [Schema.stripNull_eq, Schema.stripNull_eq]
    simp only [Option.map_some, TypeNames.stripNull, h]
  | properties s front back key h ih | definitions s front back key h ih
  | defs s front back key h ih =>
    rw [Schema.stripNull_eq, Schema.stripNull_eq]
    simp only [Option.map_some, List.map_append, List.map_cons, Prod.map, ih]
  | place s front back h ih | allOf s front back h ih | anyOf s front back h ih
  | oneOf s front back h ih =>
    rw [Schema.stripNull_eq, Schema.stripNull_eq]
    simp only [Option.map_some, Elements.map, List.map_append, List.map_cons, ih]
  | items s h ih | additionalProperties s h ih =>
    rw [Schema.stripNull_eq, Schema.stripNull_eq]
    simp only [Option.map_some, Elements.map, OtherValues.map, ih]

theorem Retyped.stripNull_eq {s s' : Schema} (h : Retyped s s') : s.stripNull = s'.stripNull := by
  induction h with
  | refl => rfl
  | tail _ h ih => exact ih.trans h.stripNull_eq

end Schema

end SchemaToGo
