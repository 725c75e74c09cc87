import SchemaToGo.Json.StringLiteral
set_option autoImplicit false

/-!
# Lists and objects

How the elements of a list and the members of an object follow one another.  The readers here are
entered after the opening bracket and leave after the closing one; what an element or a member's
value is, the caller says.
-/

namespace SchemaToGo.Json.Reader

/-! ## Lists -/

variable {α : Type}

/-- The elements after an element, up to the end of the list. -/
def moreElements (item : Reader α) : Nat → Reader (List α)
  | 0 => failNext .endInList
  | bound + 1 => do
    match ← peekToken? with
    | none => failNext .endInList
    | some b =>
      if b = Byte.closeBracket then
        eat
        return []
      else if b = Byte.comma then
        eat
        match ← peekToken? with
        | none => failNext .endInValue
        | some b =>
          if b = Byte.closeBracket then failNext .trailingComma
          else
            let first ← item
            let more ← moreElements item bound
            return first :: more
      else failNext .expectedListCommaOrEnd

/-- The elements of a list. -/
def elements (bound : Nat) (item : Reader α) : Reader (List α) := do
  match ← peekToken? with
  | none => failNext .endInList
  | some b =>
    if b = Byte.closeBracket then
      eat
      return []
    else
      let first ← item
      let more ← moreElements item bound
      return first :: more

/-- The end of a list that may hold no more elements. -/
def listEnd : Reader Unit := do
  match ← peekToken? with
  | none => failNext .endInList
  | some b =>
    if b = Byte.closeBracket then eat
    else if b = Byte.comma then
      eat
      if (← peekToken?) = some Byte.closeBracket then failNext .trailingComma
      else failNext .trailingCharacters
    else failNext .trailingCharacters

/-! ## Objects -/

/-- The colon between a key and its value. -/
def colon : Reader Unit := do
  match ← peekToken? with
  | none => failNext .endInObject
  | some b => if b = Byte.colon then eat else failNext .expectedColon

/-- The members after a member, up to the end of the object.  `member` takes a state and a key and
reads the rest of the member. -/
def moreMembers (bound : Nat) (member : α → String → Reader α) : Nat → α → Reader α
  | 0, _ => failNext .endInObject
  | n + 1, s => do
    match ← peekToken? with
    | none => failNext .endInObject
    | some b =>
      if b = Byte.closeBrace then
        eat
        return s
      else if b = Byte.comma then
        eat
        match ← peekToken? with
        | none => failNext .endInValue
        | some b =>
          if b = Byte.quote then
            eat
            let key ← stringRest bound
            let s ← member s key
            moreMembers bound member n s
          else if b = Byte.closeBrace then failNext .trailingComma
          else failNext .keyMustBeString
      else failNext .expectedObjectCommaOrEnd

/-- The members of an object, each passed to `member` in its turn. -/
def members (bound : Nat) (member : α → String → Reader α) (s : α) : Reader α := do
  match ← peekToken? with
  | none => failNext .endInObject
  | some b =>
    if b = Byte.closeBrace then
      eat
      return s
    else if b = Byte.quote then
      eat
      let key ← stringRest bound
      let s ← member s key
      moreMembers bound member bound s
    else failNext .keyMustBeString

end SchemaToGo.Json.Reader
