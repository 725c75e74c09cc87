import SchemaToGo.Json.Container
import SchemaToGo.Json.NumberLiteral
set_option autoImplicit false

/-!
# Passing over values

The values of unknown members are passed over without being decoded.  They may be nested without
limit.  After a comma the next element or key is asked for at once, so a comma before a closing
bracket is reported as a missing value, and one before a closing brace as a missing key.
-/

namespace SchemaToGo.Json.Reader

/-- The elements after an element, passed over. -/
def skipMoreElements (item : Reader Unit) : Nat → Reader Unit
  | 0 => failNext .endInList
  | bound + 1 => do
    match ← peekToken? with
    | none => failNext .endInList
    | some b =>
      if b = Byte.closeBracket then eat
      else if b = Byte.comma then
        eat
        item
        skipMoreElements item bound
      else failNext .expectedListCommaOrEnd

/-- The elements of a list, passed over. -/
def skipElements (bound : Nat) (item : Reader Unit) : Reader Unit := do
  match ← peekToken? with
  | none => failNext .endInList
  | some b =>
    if b = Byte.closeBracket then eat
    else
      item
      skipMoreElements item bound

/-- A member, passed over. -/
def skipMember (bound : Nat) (item : Reader Unit) : Reader Unit := do
  match ← peekToken? with
  | none => failNext .endInObject
  | some b =>
    if b = Byte.quote then
      eat
      skipStringRest bound
      colon
      item
    else failNext .keyMustBeString

/-- The members after a member, passed over. -/
def skipMoreMembers (bound : Nat) (item : Reader Unit) : Nat → Reader Unit
  | 0 => failNext .endInObject
  | n + 1 => do
    match ← peekToken? with
    | none => failNext .endInObject
    | some b =>
      if b = Byte.closeBrace then eat
      else if b = Byte.comma then
        eat
        skipMember bound item
        skipMoreMembers bound item n
      else failNext .expectedObjectCommaOrEnd

/-- The members of an object, passed over. -/
def skipMembers (bound : Nat) (item : Reader Unit) : Reader Unit := do
  match ← peekToken? with
  | none => failNext .endInObject
  | some b =>
    if b = Byte.closeBrace then eat
    else
      skipMember bound item
      skipMoreMembers bound item bound

/-- A value, passed over.  The second bound is on its nesting. -/
def skipValue (bound : Nat) : Nat → Reader Unit
  | 0 => do
    blanks
    failNext .endInValue
  | depth + 1 => do
    match ← peekToken? with
    | none => failNext .endInValue
    | some b =>
      if b = Byte.ofChar 'n' then
        eat
        nullRest
      else if b = Byte.ofChar 't' then
        eat
        trueRest
      else if b = Byte.ofChar 'f' then
        eat
        falseRest
      else if b = Byte.minus ∨ Byte.isDigit b then skipNumber
      else if b = Byte.quote then
        eat
        skipStringRest bound
      else if b = Byte.openBracket then
        eat
        skipElements bound (skipValue bound depth)
      else if b = Byte.openBrace then
        eat
        skipMembers bound (skipValue bound depth)
      else failNext .expectedValue

end SchemaToGo.Json.Reader
