import SchemaToGo.Json.Reader
import SchemaToGo.Text.Utf8
set_option autoImplicit false

/-!
# String literals

A string literal is decoded into a text, or, where its value is not needed, only passed over.
Decoding asks more of it: code points beyond the 16-bit range are written as two hexadecimal
escapes, a leading and a trailing surrogate, and neither may stand without the other.
-/

namespace SchemaToGo.Json

namespace Reader

/-- A byte that stands for itself in a string literal. -/
def isPlain (b : UInt8) : Bool := b != Byte.quote && b != Byte.backslash && 0x20 ≤ b

/-- The four digits of a hexadecimal escape. -/
def hexQuad : Reader Nat := do
  let c ← get
  match c.rest with
  | a :: b :: d :: e :: _ =>
    set (c.drop 4)
    match Byte.hexValue? a, Byte.hexValue? b, Byte.hexValue? d, Byte.hexValue? e with
    | some a, some b, some d, some e => return ((a * 16 + b) * 16 + d) * 16 + e
    | _, _, _, _ => failHere .invalidEscape
  | short =>
    set (c.drop short.length)
    failHere .endInString

/-- A byte that has to follow a leading surrogate. -/
def surrogateJoint (expected : UInt8) : Reader Unit := do
  match ← peek? with
  | none => failHere .endInString
  | some b =>
    eat
    if b = expected then return () else failHere .unexpectedEndOfHexEscape

/-- The code point of a hexadecimal escape, after the letter `u`. -/
def hexEscape : Reader Nat := do
  let n ← hexQuad
  if 0xDC00 ≤ n ∧ n ≤ 0xDFFF then failHere .loneSurrogate
  else if n < 0xD800 ∨ 0xDBFF < n then return n
  else
    surrogateJoint Byte.backslash
    surrogateJoint (Byte.ofChar 'u')
    let low ← hexQuad
    if low < 0xDC00 ∨ 0xDFFF < low then failHere .loneSurrogate
    else return (n - 0xD800) * 0x400 + (low - 0xDC00) + 0x10000

/-- The byte that a one-letter escape stands for. -/
def shortEscape? (b : UInt8) : Option UInt8 :=
  if b = Byte.quote ∨ b = Byte.backslash ∨ b = Byte.slash then some b
  else if b = Byte.ofChar 'b' then some 0x08
  else if b = Byte.ofChar 'f' then some 0x0C
  else if b = Byte.ofChar 'n' then some 0x0A
  else if b = Byte.ofChar 'r' then some 0x0D
  else if b = Byte.ofChar 't' then some 0x09
  else none

/-- The bytes that an escape stands for, after its backslash. -/
def escape : Reader (List UInt8) := do
  match ← peek? with
  | none => failHere .endInString
  | some b =>
    eat
    match shortEscape? b with
    | some decoded => return [decoded]
    | none =>
      if b = Byte.ofChar 'u' then return String.utf8EncodeChar (Char.ofNat (← hexEscape))
      else failHere .invalidEscape

/-- The bytes of a string literal up to its closing quote, which is passed over. -/
def stringBytes : Nat → Reader (List UInt8)
  | 0 => failHere .endInString
  | bound + 1 => do
    let plain ← takeWhile isPlain
    match ← peek? with
    | none => failHere .endInString
    | some b =>
      eat
      if b = Byte.quote then return plain
      else if b = Byte.backslash then
        let escaped ← escape
        let more ← stringBytes bound
        return plain ++ escaped ++ more
      else failHere .controlCharacter

/-- A string literal after its opening quote, decoded. -/
def stringRest (bound : Nat) : Reader String := do
  let bytes ← stringBytes bound
  match Utf8.decode? bytes with
  | some s => return s
  | none => failHere .invalidCodePoint

/-- An escape that is only passed over, after its backslash. -/
def skipEscape : Reader Unit := do
  match ← peek? with
  | none => failHere .endInString
  | some b =>
    eat
    if (shortEscape? b).isSome then return ()
    else if b = Byte.ofChar 'u' then
      let _ ← hexQuad
    else failHere .invalidEscape

/-- A string literal after its opening quote, passed over. -/
def skipStringRest : Nat → Reader Unit
  | 0 => failHere .endInString
  | bound + 1 => do
    let _ ← takeWhile isPlain
    match ← peek? with
    | none => failHere .endInString
    | some b =>
      if b = Byte.quote then eat
      else if b = Byte.backslash then
        eat
        skipEscape
        skipStringRest bound
      else failHere .controlCharacter

end Reader

/-- The text that a string literal, and nothing else, decodes to. -/
def decodeLiteral? (bytes : List UInt8) : Option String :=
  match bytes with
  | [] => none
  | b :: rest =>
    if b = Byte.quote then
      match Reader.stringRest bytes.length ⟨1, rest⟩ with
      | .ok (s, ⟨_, []⟩) => some s
      | _ => none
    else none

end SchemaToGo.Json
