set_option autoImplicit false

/-!
# Go types of schemas

The types that schemas are turned into.

Normative source: SPEC_FULL.md section 10, the right column of the table.
-/

namespace SchemaToGo

/-- A type that a schema can stand for. -/
inductive GoType where
  | text
  | integer
  | float
  | boolean
  /-- any value at all -/
  | anything
  /-- a pointer to a declared struct -/
  | struct (name : String)
  /-- a declared alias -/
  | named (name : String)
  | list (element : GoType)
  /-- texts to values of a type -/
  | dictionary (value : GoType)
  deriving DecidableEq, Repr

/-- The type as it is written. -/
def GoType.toText : GoType → String
  | text => "string"
  | integer => "int"
  | float => "float64"
  | boolean => "bool"
  | anything => "interface\x7b\x7d"
  | struct name => "*" ++ name
  | named name => name
  | list element => "[]" ++ element.toText
  | dictionary value => "map[string]" ++ value.toText

end SchemaToGo
