import SchemaToGo.Json.Reader
set_option autoImplicit false

/-!
# Number literals

A number is read digit by digit into a significand that is kept below `2 ^ 64`.  The first digit of
the whole part that does not fit, and all after it, only count as powers of ten; digits of the
fraction that do not fit count for nothing.
-/

namespace SchemaToGo.Json

/-! ## Significands and exponents -/

/-- The bound of significands and of natural numbers. -/
def wordBound : Nat := Nat.pow 2 64

/-- The bound of exponents. -/
def exponentBound : Nat := Nat.pow 2 31

/-- Append digits to a significand as long as it stays below the bound.  The second component
counts the digits appended. -/
def appendDigits : Nat → List Nat → Nat × Nat
  | n, [] => (n, 0)
  | n, d :: rest =>
    if n * 10 + d < wordBound then
      let (m, k) := appendDigits (n * 10 + d) rest
      (m, k + 1)
    else (n, 0)

/-- The value of an exponent's digits after its first ones, or the number of digits up to the one
that takes the exponent out of bounds. -/
def exponentOf : Nat → List Nat → Except Nat Nat
  | n, [] => .ok n
  | n, d :: rest =>
    if n * 10 + d < exponentBound then
      match exponentOf (n * 10 + d) rest with
      | .ok e => .ok e
      | .error k => .error (k + 1)
    else .error 1

namespace Reader

/-- Digits of a number, as their values. -/
def digits : Reader (List Nat) := do
  return (← takeWhile Byte.isDigit).map Byte.digitValue

/-- The number `significand · 10 ^ exponent` with a sign. -/
def floating (negative : Bool) (significand : Nat) (exponent : Int) : Reader Number :=
  match Decimal.Binary64.ofDecimal? significand exponent with
  | some x => return .floating negative x
  | none => failHere .numberOutOfRange

/-- A whole number.  Negative zero and numbers below the least signed word are kept as
magnitudes. -/
def whole (negative : Bool) (n : Nat) : Reader Number :=
  if negative = false then return .natural n
  else if 0 < n ∧ n ≤ Nat.pow 2 63 then return .negative n
  else return .floating true (Decimal.Binary64.ofNat n)

/-- A sign that an exponent may start with. -/
def exponentSign : Reader Bool := do
  match ← peek? with
  | none => return false
  | some b =>
    if b = Byte.plus then
      eat
      return false
    else if b = Byte.minus then
      eat
      return true
    else return false

/-- The byte is the letter of an exponent. -/
def isExponentMark (b : UInt8) : Bool := b == Byte.ofChar 'e' || b == Byte.ofChar 'E'

/-- The exponent of a number, after its letter, and with it the number. -/
def exponentRest (negative : Bool) (significand : Nat) (exponent : Int) : Reader Number := do
  let down ← exponentSign
  match ← peek? with
  | none => failHere .endInValue
  | some b =>
    eat
    if Byte.isDigit b = false then failHere .invalidNumber
    let start ← get
    let ds ← digits
    match exponentOf (Byte.digitValue b) ds with
    | .ok e => floating negative significand (if down then exponent - e else exponent + e)
    | .error k =>
      if significand ≠ 0 ∧ down = false then
        set (start.drop k)
        failHere .numberOutOfRange
      else return .floating negative (Decimal.Binary64.ofNat 0)

/-- What may follow the digits of a number: an exponent or nothing. -/
def afterDigits (negative : Bool) (significand : Nat) (exponent : Int) : Reader Number := do
  match ← peek? with
  | none => floating negative significand exponent
  | some b =>
    if isExponentMark b then
      eat
      exponentRest negative significand exponent
    else floating negative significand exponent

/-- The fraction of a number, after its point, and with it the number. -/
def fractionRest (negative : Bool) (significand : Nat) (exponent : Int) : Reader Number := do
  match ← digits with
  | [] =>
    match ← peek? with
    | none => failNext .endInValue
    | some _ => failNext .invalidNumber
  | ds =>
    let (significand, kept) := appendDigits significand ds
    afterDigits negative significand (exponent - kept)

/-- What may follow the whole part of a number.  `dropped` digits of it did not fit. -/
def afterWhole (negative : Bool) (significand dropped : Nat) : Reader Number := do
  match ← peek? with
  | some b =>
    if b = Byte.point then
      eat
      fractionRest negative significand dropped
    else if isExponentMark b ∨ 0 < dropped then afterDigits negative significand dropped
    else whole negative significand
  | none =>
    if 0 < dropped then floating negative significand dropped else whole negative significand

/-- A number after its sign. -/
def unsigned (negative : Bool) : Reader Number := do
  match ← peek? with
  | none => failHere .endInValue
  | some b =>
    eat
    if b = Byte.zero then
      match ← peek? with
      | some next =>
        if Byte.isDigit next then failNext .invalidNumber else afterWhole negative 0 0
      | none => afterWhole negative 0 0
    else if Byte.isDigit b then
      let ds ← digits
      let (significand, kept) := appendDigits (Byte.digitValue b) ds
      afterWhole negative significand (ds.length - kept)
    else failHere .invalidNumber

/-- A number that starts with the byte under the cursor, a minus sign or a digit. -/
def number : Reader Number := do
  if (← peek?) = some Byte.minus then
    eat
    unsigned true
  else unsigned false

/-! ## Numbers passed over -/

/-- An exponent after its letter. -/
def skipExponentRest : Reader Unit := do
  let _ ← exponentSign
  match ← peek? with
  | none => failHere .invalidNumber
  | some b =>
    eat
    if Byte.isDigit b then
      let _ ← digits
    else failHere .invalidNumber

/-- An exponent, if there is one. -/
def skipExponent : Reader Unit := do
  match ← peek? with
  | none => return ()
  | some b =>
    if isExponentMark b then
      eat
      skipExponentRest

/-- A fraction, if there is one, and an exponent, if there is one. -/
def skipFraction : Reader Unit := do
  if (← peek?) = some Byte.point then
    eat
    match ← digits with
    | [] => failNext .invalidNumber
    | _ => skipExponent
  else skipExponent

/-- A number after its sign, passed over. -/
def skipUnsigned : Reader Unit := do
  match ← peek? with
  | none => failHere .invalidNumber
  | some b =>
    eat
    if b = Byte.zero then
      match ← peek? with
      | some next => if Byte.isDigit next then failNext .invalidNumber else skipFraction
      | none => skipFraction
    else if Byte.isDigit b then
      let _ ← digits
      skipFraction
    else failHere .invalidNumber

/-- A number that starts with the byte under the cursor, passed over. -/
def skipNumber : Reader Unit := do
  if (← peek?) = some Byte.minus then
    eat
    skipUnsigned
  else skipUnsigned

end Reader

end SchemaToGo.Json
