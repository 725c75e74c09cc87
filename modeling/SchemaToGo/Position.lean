set_option autoImplicit false

/-!
# Positions in a source

A source is a sequence of bytes.  Its lines end after each line feed, which counts as the last
character of the line it ends; lines and characters are counted from one, characters in bytes.
`locate` turns the index of a byte into its position, and `offsetAt` turns a line and column
back into an index.

Normative source: SPEC_FULL.md section 4.1.  `offsetAt` is the inverse that the section adds.
-/

namespace SchemaToGo

/-- The byte that ends a line. -/
def lineFeed : UInt8 := 0x0A

/-- A place in a source, both numbers counted from one. -/
structure Position where
  line : Nat
  character : Nat
  deriving DecidableEq, Repr

/-- The text of a position in messages. -/
def Position.text (p : Position) : String :=
  s!"line {p.line}, character {p.character}"

/-- The offset is not the index of a byte of the source. -/
structure OutOfRange where
  offset : Nat
  length : Nat
  deriving DecidableEq, Repr

/-- The wording of an offset out of range. -/
def OutOfRange.message (e : OutOfRange) : String :=
  s!"couldn't find offset {e.offset} in {e.length} bytes"

namespace Position

/-- The position `n` bytes further on, when `character` bytes of line `line` stand before the
source. -/
def locateFrom (line character : Nat) : List UInt8 → Nat → Option Position
  | [], _ => none
  | _ :: _, 0 => some ⟨line, character + 1⟩
  | b :: rest, n + 1 =>
    if b = lineFeed then locateFrom (line + 1) 0 rest n
    else locateFrom line (character + 1) rest n

/-- The position of the byte at an offset.  The end of the source is no byte of it. -/
def locate (source : List UInt8) (offset : Nat) : Except OutOfRange Position :=
  match locateFrom 1 0 source offset with
  | some p => .ok p
  | none => .error ⟨offset, source.length⟩

/-- The index after the given number of line feeds, or the length of a source with fewer. -/
def afterLineFeeds : List UInt8 → Nat → Nat
  | _, 0 => 0
  | [], _ => 0
  | b :: rest, n + 1 =>
    1 + if b = lineFeed then afterLineFeeds rest n else afterLineFeeds rest (n + 1)

/-- The index of a line's first byte. -/
def lineStart (source : List UInt8) (line : Nat) : Nat :=
  afterLineFeeds source (line - 1)

/-- The index of a line's column.  Line and column zero count as one, and nothing bounds the
column by the length of its line. -/
def offsetAt (source : List UInt8) (line column : Nat) : Nat :=
  lineStart source line + (column - 1)

/-- The line of the byte at an index and the number of that line's bytes before it. -/
def lineColumnFrom (line column : Nat) : List UInt8 → Nat → Nat × Nat
  | _, 0 => (line, column)
  | [], _ => (line, column)
  | b :: rest, n + 1 =>
    if b = lineFeed then lineColumnFrom (line + 1) 0 rest n
    else lineColumnFrom line (column + 1) rest n

/-- The line that an index lies in and how many of the line's bytes stand before it. -/
def lineColumn (source : List UInt8) (index : Nat) : Nat × Nat :=
  lineColumnFrom 1 0 source index

end Position

end SchemaToGo
