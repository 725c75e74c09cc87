import SchemaToGo.Go.Problem
set_option autoImplicit false

/-!
# Files of type declarations

What a text of the subset says: line comments, the package clause and type declarations, in the
order of the text.  Every item and every struct member remembers how many line breaks stood before
it, because blank lines and comments that share a line with something else are kept.

Normative source: SPEC_FULL.md section 4.4, which lists the declarations and types of the subset.
-/

namespace SchemaToGo.Go

mutual

/-- A type. -/
inductive TypeExpr where
  /-- a name, with its package and a dot if it is qualified -/
  | named (name : List Char)
  | pointer (target : TypeExpr)
  | slice (element : TypeExpr)
  | array (length : List Char) (element : TypeExpr)
  | map (key value : TypeExpr)
  | emptyInterface
  /-- `multiline` tells whether the braces stood on different lines -/
  | struct (members : List Member) (multiline : Bool)

/-- A line of a struct's body. -/
inductive Member where
  | comment (newlines : Nat) (text : List Char)
  /-- a field without a name is embedded -/
  | field (newlines : Nat) (name : Option (List Char)) (type : TypeExpr)
      (tag comment : Option (List Char))

end

instance : Inhabited TypeExpr := ⟨.emptyInterface⟩

/-- What an item of a file is. -/
inductive Decl where
  | comment (text : List Char)
  | package (name : List Char)
  | type (name : List Char) (type : TypeExpr)

/-- An item of a file and the line breaks before it. -/
structure Item where
  newlines : Nat
  decl : Decl

namespace Item

/-- The item is a comment. -/
def isComment (item : Item) : Bool :=
  match item.decl with
  | .comment _ => true
  | _ => false

/-- The item is the package clause. -/
def isPackage (item : Item) : Bool :=
  match item.decl with
  | .package _ => true
  | _ => false

/-- The item is a type declaration. -/
def isType (item : Item) : Bool :=
  match item.decl with
  | .type _ _ => true
  | _ => false

end Item

end SchemaToGo.Go
