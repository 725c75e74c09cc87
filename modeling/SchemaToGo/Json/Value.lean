import SchemaToGo.Json.Container
import SchemaToGo.Json.NumberLiteral
set_option autoImplicit false

/-!
# JSON values

A value is read whole where its place allows several kinds.  Reading decodes everything in it, and
the nesting is limited: `room` says how many more lists and objects may be entered.
-/

namespace SchemaToGo.Json

/-- A JSON value.  Objects keep their members in the order of the text, repeated keys included. -/
inductive Value where
  | null
  | bool (b : Bool)
  | number (n : Number)
  | string (s : String)
  | array (elements : List Value)
  | object (members : List (String × Value))

instance : Inhabited Value := ⟨.null⟩

namespace Value

mutual

/-- How deep lists and objects are nested in a value. -/
def nesting : Value → Nat
  | array es => 1 + elementsNesting es
  | object ms => 1 + membersNesting ms
  | null | bool _ | number _ | string _ => 0

/-- The deepest nesting among elements. -/
def elementsNesting : List Value → Nat
  | [] => 0
  | v :: rest => max (nesting v) (elementsNesting rest)

/-- The deepest nesting among members. -/
def membersNesting : List (String × Value) → Nat
  | [] => 0
  | (_, v) :: rest => max (nesting v) (membersNesting rest)

end

end Value

namespace Reader

/-- A value whose elements and member values are read by `inner`.  Without `inner` there is no room
for lists and objects. -/
def valueWith (bound : Nat) (inner : Option (Reader Value)) : Reader Value := do
  match ← peekToken? with
  | none => failNext .endInValue
  | some b =>
    if b = Byte.ofChar 'n' then
      eat
      nullRest
      return .null
    else if b = Byte.ofChar 't' then
      eat
      trueRest
      return .bool true
    else if b = Byte.ofChar 'f' then
      eat
      falseRest
      return .bool false
    else if b = Byte.minus ∨ Byte.isDigit b then return .number (← number)
    else if b = Byte.quote then
      eat
      return .string (← stringRest bound)
    else if b = Byte.openBracket then
      match inner with
      | none => failNext .nestedTooDeep
      | some item =>
        eat
        return .array (← elements bound item)
    else if b = Byte.openBrace then
      match inner with
      | none => failNext .nestedTooDeep
      | some item =>
        eat
        let member (ms : List (String × Value)) (key : String) :
            Reader (List (String × Value)) := do
          colon
          return ms ++ [(key, ← item)]
        return .object (← members bound member [])
    else failNext .expectedValue

/-- A value. -/
def value (bound : Nat) : Nat → Reader Value
  | 0 => valueWith bound none
  | room + 1 => valueWith bound (some (value bound room))

/-- Refuse the value under the cursor for its kind.  Numbers, texts and names are read to the end
first, and may turn out to be faulty; lists and objects are refused at their bracket. -/
def refuseKind {α : Type} (bound : Nat) (wanted : Wanted) : Reader α := do
  let found : Found ← do
    match ← peek? with
    | none => failNext .expectedValue
    | some b =>
      if b = Byte.ofChar 'n' then
        eat
        nullRest
        pure .null
      else if b = Byte.ofChar 't' then
        eat
        trueRest
        pure (.bool true)
      else if b = Byte.ofChar 'f' then
        eat
        falseRest
        pure (.bool false)
      else if b = Byte.minus ∨ Byte.isDigit b then pure (.number (← number))
      else if b = Byte.quote then
        eat
        pure (.string (← stringRest bound))
      else if b = Byte.openBracket then pure .array
      else if b = Byte.openBrace then pure .object
      else failNext .expectedValue
  fun c => .error ⟨.misfit (.wrongKind found wanted), c.index⟩

/-- `null` counts as an absent value. -/
def nullable {α : Type} (item : Reader α) : Reader (Option α) := do
  if (← peekToken?) = some (Byte.ofChar 'n') then
    eat
    nullRest
    return none
  else return some (← item)

/-- A text. -/
def text (bound : Nat) : Reader String := do
  match ← peekToken? with
  | none => failNext .endInValue
  | some b =>
    if b = Byte.quote then
      eat
      stringRest bound
    else refuseKind bound .string

/-- A list of elements of one kind.  Without `item` there is no room for a list. -/
def list {α : Type} (bound : Nat) (item : Option (Reader α)) : Reader (List α) := do
  match ← peekToken? with
  | none => failNext .endInValue
  | some b =>
    if b = Byte.openBracket then
      match item with
      | none => failNext .nestedTooDeep
      | some item =>
        eat
        elements bound item
    else refuseKind bound .list

end Reader

end SchemaToGo.Json
