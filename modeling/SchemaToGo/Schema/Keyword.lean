import SchemaToGo.Schema.Basic
set_option autoImplicit false

/-!
# Keywords

The keywords that a schema keeps.  A schema is read keyword by keyword, from text or from a value
that has been read already; `Parts` says how the value of each kind of keyword is read, and
`Keyword.assign` puts it in its place.
-/

namespace SchemaToGo.Schema

/-- A keyword that a schema keeps. -/
inductive Keyword where
  | ref
  | title
  | description
  | type
  | properties
  | required
  | items
  | additionalProperties
  | definitions
  | defs
  | allOf
  | anyOf
  | oneOf
  deriving DecidableEq, Repr

namespace Keyword

/-- The keyword as it is written. -/
def name : Keyword → String
  | ref => "$ref"
  | title => "title"
  | description => "description"
  | type => "type"
  | properties => "properties"
  | required => "required"
  | items => "items"
  | additionalProperties => "additionalProperties"
  | definitions => "definitions"
  | defs => "$defs"
  | allOf => "allOf"
  | anyOf => "anyOf"
  | oneOf => "oneOf"

/-- All keywords, in the order in which the list form of a schema gives their values. -/
def all : List Keyword :=
  [ref, title, description, type, properties, required, items, additionalProperties, definitions,
    defs, allOf, anyOf, oneOf]

/-- The keyword of a name. -/
def ofName? (s : String) : Option Keyword := all.find? fun k => k.name = s

theorem mem_all (k : Keyword) : k ∈ all := by cases k <;> decide

/-- A name is that of at most one keyword. -/
theorem name_injective {j k : Keyword} (h : j.name = k.name) : j = k := by
  revert h
  cases j <;> cases k <;> decide

/-- Looking up a name finds the keyword that is written so. -/
theorem ofName?_eq_some_iff {s : String} {k : Keyword} : ofName? s = some k ↔ k.name = s := by
  constructor
  · intro h
    simpa using List.find?_some h
  · intro h
    cases hf : ofName? s with
    | none =>
      have := List.find?_eq_none.mp hf k (mem_all k)
      simp [h] at this
    | some j =>
      have hj : j.name = s := by simpa using List.find?_some hf
      rw [name_injective (hj.trans h.symm)]

end Keyword

/-- Readers for the values of keywords, one for each kind.  `none` is read where the value counts
as absent. -/
structure Parts (m : Type → Type) where
  text : m (Option String)
  type : m (Option TypeNames)
  named : m (Option (List (String × Schema)))
  names : m (Option (List String))
  items : m (Option (Elements Schema))
  values : m (Option (OtherValues Schema))
  list : m (Option (List Schema))

/-- A schema with the value of a keyword read and put in place. -/
def Keyword.assign {m : Type → Type} [Monad m] (parts : Parts m) (s : Schema) :
    Keyword → m Schema
  | ref => return { s with ref := ← parts.text }
  | title => return { s with title := ← parts.text }
  | description => return { s with description := ← parts.text }
  | type => return { s with type := ← parts.type }
  | properties => return { s with properties := ← parts.named }
  | required => return { s with required := ← parts.names }
  | items => return { s with items := ← parts.items }
  | additionalProperties => return { s with additionalProperties := ← parts.values }
  | definitions => return { s with definitions := ← parts.named }
  | defs => return { s with defs := ← parts.named }
  | allOf => return { s with allOf := ← parts.list }
  | anyOf => return { s with anyOf := ← parts.list }
  | oneOf => return { s with oneOf := ← parts.list }

end SchemaToGo.Schema
