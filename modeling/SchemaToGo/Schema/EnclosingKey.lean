import SchemaToGo.Json.StringLiteral
set_option autoImplicit false

/-!
# The key around a place

A report on a misfit names the member that the place belongs to.  The member is looked for
backwards in the bytes before the place: the last colon that stands after a string literal.  All
lists of bytes called `before` here are reversed, the nearest byte first.

Normative source: SPEC_FULL.md section 7: a report carries the nearest enclosing object key before
the offset, when it can be determined.
-/

namespace SchemaToGo.Json

/-- A blank of ASCII: space, tab, line feed, form feed or carriage return. -/
def isAsciiBlank (b : UInt8) : Bool :=
  b == 0x20 || b == 0x09 || b == 0x0A || b == 0x0C || b == 0x0D

/-- A string literal from its opening quote on, where `found` is the part that is known already.
The opening quote is the nearest one with no backslash before it. -/
def literalBack? : List UInt8 → List UInt8 → Option (List UInt8)
  | [], _ => none
  | b :: before, found =>
    if b = Byte.quote ∧ before.head? ≠ some Byte.backslash then some (b :: found)
    else literalBack? before (b :: found)

/-- The text of the string literal that ends where we look back from. -/
def quotedBack? : List UInt8 → Option String
  | [] => none
  | b :: before =>
    if b = Byte.quote then literalBack? before [b] >>= decodeLiteral?
    else none

/-- The text of the string literal that the bytes end in. -/
def literalSuffix? (bytes : List UInt8) : Option String := quotedBack? bytes.reverse

/-- The key of the nearest colon with a string literal before it. -/
def keyBack? : List UInt8 → Option String
  | [] => none
  | b :: before =>
    let key := if b = Byte.colon then quotedBack? (before.dropWhile isAsciiBlank) else none
    match key with
    | some k => some k
    | none => keyBack? before

/-- The key of the last member whose colon stands before the offset. -/
def keyBefore? (bytes : List UInt8) (offset : Nat) : Option String :=
  keyBack? (bytes.take offset).reverse

end SchemaToGo.Json
