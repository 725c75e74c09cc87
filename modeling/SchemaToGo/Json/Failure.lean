import SchemaToGo.Decimal.Shortest
import SchemaToGo.Text.Quoted
set_option autoImplicit false

/-!
# Why a JSON text is refused

A text is refused for a fault, if it is no JSON text, or for a misfit, if a value in it is not of
the kind that its place asks for.  A failure gives the cause and an index into the text's bytes.

Normative source: SPEC_FULL.md section 7, which tells malformed texts from values of the wrong type.
-/

namespace SchemaToGo.Json

/-! ## Numbers -/

/-- A number as it is read: whole numbers are kept exactly as far as they fit into 64 bits, all
others as the nearest binary magnitude with a sign. -/
inductive Number where
  | natural (n : Nat)
  /-- the number `-n` -/
  | negative (n : Nat)
  | floating (negative : Bool) (magnitude : Decimal.Binary64)
  deriving DecidableEq, Repr

/-- Magnitudes from `10 ^ -5` on and below `10 ^ 16` are written positionally. -/
def numberFormat : Decimal.NumberFormat := ⟨-5, 15⟩

/-- How messages show a number. -/
def Number.text : Number → String
  | natural n => s!"integer `{n}`"
  | negative n => s!"integer `-{n}`"
  | floating sign x =>
    "floating point `" ++ (if sign then "-" else "") ++
      String.ofList (numberFormat.magnitudeText x) ++ "`"

/-! ## Causes -/

/-- Why a text is no JSON text. -/
inductive Fault where
  | endInList
  | endInObject
  | endInString
  | endInValue
  | expectedColon
  | expectedListCommaOrEnd
  | expectedObjectCommaOrEnd
  | expectedIdent
  | expectedValue
  | invalidEscape
  | invalidNumber
  | numberOutOfRange
  | invalidCodePoint
  | controlCharacter
  | keyMustBeString
  | loneSurrogate
  | trailingComma
  | trailingCharacters
  | unexpectedEndOfHexEscape
  | nestedTooDeep
  deriving DecidableEq, Repr

/-- The wording of a fault. -/
def Fault.message : Fault → String
  | endInList => "EOF while parsing a list"
  | endInObject => "EOF while parsing an object"
  | endInString => "EOF while parsing a string"
  | endInValue => "EOF while parsing a value"
  | expectedColon => "expected `:`"
  | expectedListCommaOrEnd => "expected `,` or `]`"
  | expectedObjectCommaOrEnd => "expected `,` or `\x7d`"
  | expectedIdent => "expected ident"
  | expectedValue => "expected value"
  | invalidEscape => "invalid escape"
  | invalidNumber => "invalid number"
  | numberOutOfRange => "number out of range"
  | invalidCodePoint => "invalid unicode code point"
  | controlCharacter => "control character (\\u0000-\\u001F) found while parsing a string"
  | keyMustBeString => "key must be a string"
  | loneSurrogate => "lone leading surrogate in hex escape"
  | trailingComma => "trailing comma"
  | trailingCharacters => "trailing characters"
  | unexpectedEndOfHexEscape => "unexpected end of hex escape"
  | nestedTooDeep => "recursion limit exceeded"

/-- A value that was found where another kind was asked for. -/
inductive Found where
  | null
  | bool (b : Bool)
  | number (n : Number)
  | string (s : String)
  | array
  | object
  deriving DecidableEq, Repr

/-- How messages show what was found. -/
def Found.text : Found → String
  | null => "null"
  | bool b => "boolean `" ++ (if b then "true" else "false") ++ "`"
  | number n => n.text
  | string s => "string " ++ Text.quoteText s
  | array => "sequence"
  | object => "map"

/-- The kind of value that a place asks for. -/
inductive Wanted where
  | string
  | list
  | map
  | schema
  deriving DecidableEq, Repr

/-- How messages name what is wanted. -/
def Wanted.text : Wanted → String
  | string => "a string"
  | list => "a sequence"
  | map => "a map"
  | schema => "struct JsonSchema"

/-- Keywords whose value may be of several kinds. -/
inductive Choice where
  | type
  | items
  | additionalProperties
  deriving DecidableEq, Repr

/-- How messages name a choice. -/
def Choice.text : Choice → String
  | type => "TypeKeyword"
  | items => "Items"
  | additionalProperties => "AdditionalProperties"

/-- Why a JSON value is no schema. -/
inductive Misfit where
  | wrongKind (found : Found) (wanted : Wanted)
  | repeatedMember (name : String)
  | noAlternative (choice : Choice)
  deriving DecidableEq, Repr

/-- The wording of a misfit. -/
def Misfit.message : Misfit → String
  | wrongKind found wanted => "invalid type: " ++ found.text ++ ", expected " ++ wanted.text
  | repeatedMember name => "duplicate field `" ++ name ++ "`"
  | noAlternative choice =>
    "data did not match any variant of untagged enum " ++ choice.text

/-- Why a text is refused. -/
inductive Cause where
  | fault (f : Fault)
  | misfit (m : Misfit)
  deriving DecidableEq, Repr

/-- The wording of a cause. -/
def Cause.message : Cause → String
  | fault f => f.message
  | misfit m => m.message

/-- A cause and the index where reading stood when it was found. -/
structure Failure where
  cause : Cause
  index : Nat
  deriving DecidableEq, Repr

end SchemaToGo.Json
