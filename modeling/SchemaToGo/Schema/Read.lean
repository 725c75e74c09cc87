import SchemaToGo.Schema.OfValue
import SchemaToGo.Json.Skip
set_option autoImplicit false

/-!
# Reading schemas

A schema is read from a text as an object or as a list of the values of its keywords.  Values of
other members are passed over without being decoded.  Where a keyword takes several kinds of value,
the value is read whole first, and if it is none of them the failure is reported at the end of the
innermost list or object around the keyword.
-/

namespace SchemaToGo.Schema

open Json Json.Reader

/-! ## Where a misfit is reported -/

/-- The index after the end of an object, if nothing but the end is left of it; else the index of
what is left. -/
def objectEndIndex (c : Cursor) : Nat :=
  let c := c.skipBlanks
  if c.rest.head? = some Byte.closeBrace then c.index + 1 else c.index

/-- The index after the end of a list, if nothing but the end is left of it; else the index of
what is left, which starts after a comma. -/
def listEndIndex (c : Cursor) : Nat :=
  let c := c.skipBlanks
  if c.rest.head? = some Byte.closeBracket then c.index + 1
  else if c.rest.head? = some Byte.comma then (c.drop 1).skipBlanks.index
  else c.index

/-- Refuse what was read for a misfit. -/
def misfit {α : Type} (ending : Cursor → Nat) (m : Misfit) : Reader α :=
  fun c => .error ⟨.misfit m, ending c⟩

/-! ## Values of keywords -/

/-- A value that is read whole and then taken for one of several alternatives. -/
def alternative {α : Type} (ending : Cursor → Nat) (choice : Choice) (item : Reader Value)
    (ofValue? : Value → Option α) : Reader (Option α) :=
  nullable do
    match ofValue? (← item) with
    | some a => return a
    | none => misfit ending (.noAlternative choice)

/-- Schemas under the names of an object.  Of several with one name the last one stays.  Without
`schema` there is no room for an object. -/
def named (bound : Nat) (schema : Option (Reader Schema)) : Reader (List (String × Schema)) := do
  match ← peekToken? with
  | none => failNext .endInValue
  | some b =>
    if b = Byte.openBrace then
      match schema with
      | none => failNext .nestedTooDeep
      | some schema =>
        eat
        let member (es : List (String × Schema)) (key : String) :
            Reader (List (String × Schema)) := do
          colon
          return Entries.insert key (← schema) es
        members bound member []
    else refuseKind bound .map

/-- How the values of keywords are read with room for `room` lists and objects inside each other.
`inner` reads a schema that stands inside such a list or object. -/
def readParts (bound room : Nat) (inner : Option (Reader Schema)) (ending : Cursor → Nat) :
    Parts Reader where
  text := nullable (text bound)
  type := alternative ending .type (value bound room) TypeNames.ofValue?
  named := nullable (named bound inner)
  names := nullable (list bound (if room = 0 then none else some (text bound)))
  items := alternative ending .items (value bound room) (Elements.ofValue? ofValue?)
  values := alternative ending .additionalProperties (value bound room)
    (OtherValues.ofValue? ofValue?)
  list := nullable (list bound inner)

/-! ## Schemas -/

/-- A member of a schema.  Other members are passed over; no keyword may be repeated, even if its
value counts as absent. -/
def readMember (bound : Nat) (parts : Parts Reader) (state : Schema × List Keyword)
    (name : String) : Reader (Schema × List Keyword) := do
  let (s, seen) := state
  match Keyword.ofName? name with
  | none =>
    colon
    skipValue bound bound
    return (s, seen)
  | some k =>
    if k ∈ seen then misfit objectEndIndex (.repeatedMember name)
    else
      colon
      return (← k.assign parts s, k :: seen)

/-- The values of keywords as elements of a list. -/
def readElements (parts : Parts Reader) : List Keyword → Schema → Reader Schema
  | [], s => do
    listEnd
    return s
  | k :: keywords, s => do
    match ← peekToken? with
    | none => failNext .endInList
    | some b =>
      if b = Byte.closeBracket then
        eat
        return s
      else if b = Byte.comma then
        eat
        match ← peekToken? with
        | none => failNext .endInValue
        | some b =>
          if b = Byte.closeBracket then failNext .trailingComma
          else readElements parts keywords (← k.assign parts s)
      else failNext .expectedListCommaOrEnd

/-- The list form of a schema after its bracket. -/
def readList (parts : Parts Reader) : Reader Schema := do
  match ← peekToken? with
  | none => failNext .endInList
  | some b =>
    if b = Byte.closeBracket then
      eat
      return empty
    else readElements parts Keyword.all.tail (← Keyword.ref.assign parts empty)

/-- A schema whose keywords' values are read by `parts`.  Without `parts` there is no room for
it. -/
def readWith (bound : Nat) (parts : Option ((Cursor → Nat) → Parts Reader)) : Reader Schema := do
  match ← peekToken? with
  | none => failNext .endInValue
  | some b =>
    if b = Byte.openBrace then
      match parts with
      | none => failNext .nestedTooDeep
      | some parts =>
        eat
        let (s, _) ← members bound (readMember bound (parts objectEndIndex)) (empty, [])
        return s
    else if b = Byte.openBracket then
      match parts with
      | none => failNext .nestedTooDeep
      | some parts =>
        eat
        readList (parts listEndIndex)
    else refuseKind bound .schema

/-- A schema, with room for so many lists and objects inside each other.  Schemas under a keyword
that takes several stand two deeper than the keyword's own schema. -/
def read (bound : Nat) : Nat → Reader Schema
  | 0 => readWith bound none
  | 1 => readWith bound (some (readParts bound 0 none))
  | room + 2 => readWith bound (some (readParts bound (room + 1) (some (read bound room))))

end SchemaToGo.Schema
