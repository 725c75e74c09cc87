import SchemaToGo.Text.CamelCase
import SchemaToGo.Go.Identifier
set_option autoImplicit false

/-!
# Names

Types and fields are named after titles and keys, which may be any text.  A text becomes an
exported name by upper camel case, with the characters dropped that identifiers do not admit.
Names that are taken already get the smallest free number as a suffix.

Normative source: SPEC_FULL.md section 10, on names.
-/

namespace SchemaToGo.Naming

/-! ## Exported names -/

/-- An exported identifier made of a text, or the empty text if nothing of it can be used.  A
leading digit gets a letter in front. -/
def exportedName (s : String) : String :=
  let camel := (Text.upperCamelCase s.toList).filter Go.isWordChar
  match camel with
  | [] => ""
  | c :: _ => String.ofList (if Go.isDigit c then 'X' :: camel else camel)

/-- The name of a root without a title, and of types for which no other text can be used. -/
def rootName : String := "Root"

/-- A type's name, from its title if it can be used, else from `fallback`. -/
def forType (title : Option String) (fallback : String) : String :=
  let fromTitle := (title.map exportedName).getD ""
  if fromTitle ≠ "" then fromTitle
  else
    let fromFallback := exportedName fallback
    if fromFallback ≠ "" then fromFallback else rootName

/-- A field's name, from its key if it can be used. -/
def forField (key : String) : String :=
  let name := exportedName key
  if name ≠ "" then name else "Field"

/-! ## Free names -/

/-- `base` with the first number from `n` on that makes a free name.  At most `bound` numbers are
tried. -/
def firstFree (taken : List String) (base : String) : Nat → Nat → String
  | 0, n => base ++ toString n
  | bound + 1, n =>
    let candidate := base ++ toString n
    if candidate ∈ taken then firstFree taken base bound (n + 1) else candidate

/-- `base` if it is free, else `base` with the smallest number from one on that makes a free name
(SPEC_FULL.md section 10: `Foo`, `Foo1`, `Foo2`).  Since `base` itself is taken, not all of as many
other names can be taken as names are. -/
def freeName (taken : List String) (base : String) : String :=
  if base ∈ taken then firstFree taken base (taken.length - 1) 1 else base

end SchemaToGo.Naming
