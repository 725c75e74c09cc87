import SchemaToGo.Json.Failure
set_option autoImplicit false

/-!
# Reading bytes

A reader takes a prefix of the bytes of a text and returns what it read and a cursor on the rest,
or a failure.  Failures stand either where reading is (`failHere`) or one byte further, on the
byte that was looked at (`failNext`).

Readers that repeat something have a bound on their repetitions.  Each takes a byte off, so the
length of the text is a bound that is never felt; at bound zero no bytes are left.

The schema parser of SPEC_FULL.md section 2 reads its texts with these readers; every failure
becomes a report with a byte offset (section 7).
-/

namespace SchemaToGo.Json

/-! ## Bytes -/

namespace Byte

def quote : UInt8 := 0x22
def plus : UInt8 := 0x2B
def comma : UInt8 := 0x2C
def minus : UInt8 := 0x2D
def point : UInt8 := 0x2E
def slash : UInt8 := 0x2F
def zero : UInt8 := 0x30
def nine : UInt8 := 0x39
def colon : UInt8 := 0x3A
def openBracket : UInt8 := 0x5B
def backslash : UInt8 := 0x5C
def closeBracket : UInt8 := 0x5D
def openBrace : UInt8 := 0x7B
def closeBrace : UInt8 := 0x7D

/-- A blank between the tokens of a JSON text. -/
def isBlank (b : UInt8) : Bool := b == 0x20 || b == 0x0A || b == 0x09 || b == 0x0D

/-- A decimal digit. -/
def isDigit (b : UInt8) : Bool := zero ≤ b && b ≤ nine

/-- The value of a decimal digit. -/
def digitValue (b : UInt8) : Nat := b.toNat - 48

/-- The byte of an ASCII character. -/
def ofChar (c : Char) : UInt8 := c.toNat.toUInt8

/-- The value of a hexadecimal digit. -/
def hexValue? (b : UInt8) : Option Nat :=
  let n := b.toNat
  if 48 ≤ n ∧ n ≤ 57 then some (n - 48)
  else if 65 ≤ n ∧ n ≤ 70 then some (n - 55)
  else if 97 ≤ n ∧ n ≤ 102 then some (n - 87)
  else none

end Byte

/-! ## Cursors and readers -/

/-- The rest of a text and the number of bytes before it. -/
structure Cursor where
  index : Nat
  rest : List UInt8
  deriving DecidableEq, Repr

namespace Cursor

/-- The cursor at the start of a text. -/
def start (text : List UInt8) : Cursor := ⟨0, text⟩

/-- The cursor `n` bytes further on. -/
def drop (c : Cursor) (n : Nat) : Cursor := ⟨c.index + n, c.rest.drop n⟩

/-- The index after the byte under the cursor; at the end of the text, the end. -/
def nextIndex (c : Cursor) : Nat := if c.rest.isEmpty then c.index else c.index + 1

/-- The cursor after the blanks it stands on. -/
def skipBlanks (c : Cursor) : Cursor := c.drop (c.rest.takeWhile Byte.isBlank).length

end Cursor

/-- A reader of values of a type. -/
abbrev Reader (α : Type) := StateT Cursor (Except Failure) α

namespace Reader

variable {α : Type}

/-- Fail where reading stands. -/
def failHere (f : Fault) : Reader α := fun c => .error ⟨.fault f, c.index⟩

/-- Fail on the byte under the cursor. -/
def failNext (f : Fault) : Reader α := fun c => .error ⟨.fault f, c.nextIndex⟩

/-- The byte under the cursor, which stays in place. -/
def peek? : Reader (Option UInt8) := fun c => .ok (c.rest.head?, c)

/-- Pass over the byte under the cursor. -/
def eat : Reader Unit := fun c => .ok ((), c.drop 1)

/-- Pass over blanks. -/
def blanks : Reader Unit := fun c => .ok ((), c.skipBlanks)

/-- The byte after blanks, which stays in place. -/
def peekToken? : Reader (Option UInt8) := do
  blanks
  peek?

/-- Read bytes as long as they satisfy `p`. -/
def takeWhile (p : UInt8 → Bool) : Reader (List UInt8) := fun c =>
  let taken := c.rest.takeWhile p
  .ok (taken, c.drop taken.length)

/-- Read the bytes that are left of a literal name. -/
def nameRest : List UInt8 → Reader Unit
  | [] => return ()
  | expected :: more => do
    match ← peek? with
    | none => failHere .endInValue
    | some b =>
      eat
      if b = expected then nameRest more else failHere .expectedIdent

/-- The rest of `null` after its first letter. -/
def nullRest : Reader Unit := nameRest ("ull".toList.map Byte.ofChar)

/-- The rest of `true` after its first letter. -/
def trueRest : Reader Unit := nameRest ("rue".toList.map Byte.ofChar)

/-- The rest of `false` after its first letter. -/
def falseRest : Reader Unit := nameRest ("alse".toList.map Byte.ofChar)

end Reader

end SchemaToGo.Json
