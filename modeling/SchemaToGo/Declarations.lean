import SchemaToGo.Dict
set_option autoImplicit false

/-!
# Declarations

The types that a run declares: structs with their fields, and aliases.  Everything is kept in
dictionaries, so declarations that hold the same types are equal however they were collected.

Normative source: SPEC_FULL.md section 3.  The keys of fields are the fields' own names, as that
section adds.
-/

namespace SchemaToGo

/-- A field of a struct. -/
structure Field where
  name : String
  /-- the property's key, which the field's tag carries -/
  jsonName : String
  /-- the field's type as Go text -/
  type : String
  required : Bool
  description : Option String
  deriving DecidableEq, Repr

/-- A struct type.  Its fields are kept under their names. -/
structure Struct where
  name : String
  description : Option String
  fields : Dict Field
  deriving Repr

/-- A struct without description and fields. -/
def Struct.named (name : String) : Struct := ⟨name, none, ∅⟩

/-- Add a field under its own name. -/
def Struct.insertField (s : Struct) (f : Field) : Struct :=
  { s with fields := s.fields.insert f.name f }

/-- A name for another type. -/
structure Alias where
  name : String
  /-- the other type as Go text -/
  type : String
  deriving DecidableEq, Repr

/-- A type that is declared. -/
inductive Declaration where
  | struct (s : Struct)
  | alias (a : Alias)
  deriving Repr

/-- The name of a declared type. -/
def Declaration.name : Declaration → String
  | .struct s => s.name
  | .alias a => a.name

/-- Everything a run declares. -/
structure Declarations where
  structs : Dict Struct
  aliases : Dict Alias
  deriving Repr

namespace Declarations

/-- No declarations. -/
def empty : Declarations := ⟨∅, ∅⟩

instance : Inhabited Declarations := ⟨empty⟩

instance : EmptyCollection Declarations := ⟨empty⟩

/-- Add a struct under its own name. -/
def insertStruct (d : Declarations) (s : Struct) : Declarations :=
  { d with structs := d.structs.insert s.name s }

/-- Add an alias under its own name. -/
def insertAlias (d : Declarations) (a : Alias) : Declarations :=
  { d with aliases := d.aliases.insert a.name a }

/-- Add a type under its own name. -/
def insert (d : Declarations) : Declaration → Declarations
  | .struct s => d.insertStruct s
  | .alias a => d.insertAlias a

/-- The declarations after types have been added, of which the last one stands first. -/
def ofInserts (made : List Declaration) : Declarations :=
  made.foldr (fun e d => d.insert e) empty

/-- Nothing is declared. -/
def isEmpty (d : Declarations) : Bool := d.structs.isEmpty && d.aliases.isEmpty

end Declarations

end SchemaToGo
