import SchemaToGo.Go.File
import SchemaToGo.Go.Token.Scan
set_option autoImplicit false

/-!
# Parsing

Tokens are read into a file by recursive descent.  A parser takes a prefix of the tokens and
returns what it read and the tokens left, or the first place where they leave the grammar.

Every parser has a bound on the number of tokens it may look at.  Each step takes a token off, so a
bound no smaller than the number of tokens is never felt; at bound zero no tokens are left, and a
parser answers as it does at the end of a text.

Normative source: SPEC_FULL.md section 4.4.  The grammar is written out in
`SchemaToGo.Proofs.Go.Grammar`.
-/

namespace SchemaToGo.Go

/-- A parser: takes a prefix of the tokens and returns the rest. -/
abbrev Step (α : Type) := List Token → Except FormatError (α × List Token)

namespace Parse

/-! ## Single tokens

`finish` is the place where the text ends, which is where a missing token is reported. -/

/-- The place of the next token. -/
def placeOf (finish : Place) : List Token → Place
  | [] => finish
  | t :: _ => t.place

/-- Refuse the next token. -/
def refuse {α : Type} (finish : Place) (p : Problem) (ts : List Token) : Except FormatError α :=
  .error ⟨placeOf finish ts, p⟩

/-- A given punctuation mark. -/
def punct (finish : Place) (p : Punct) : Step Unit
  | ts@(t :: rest) =>
    if t.kind = .punct p then .ok ((), rest) else refuse finish (.expectedPunct p) ts
  | [] => refuse finish (.expectedPunct p) []

/-- An identifier that is no keyword. -/
def name (finish : Place) (role : NameRole) : Step (List Char)
  | ts@(t :: rest) =>
    match t.kind with
    | .word text =>
      if isKeyword text then refuse finish (.keywordAsName role text) ts else .ok (text, rest)
    | _ => refuse finish (.expectedName role) ts
  | [] => refuse finish (.expectedName role) []

/-- The end of a declaration: a semicolon or the end of the text. -/
def terminator (finish : Place) : Step Unit
  | ts@(t :: rest) =>
    match t.kind with
    | .semicolon _ => .ok ((), rest)
    | _ => refuse finish .expectedTerminator ts
  | [] => .ok ((), [])

/-- The end of a field: a semicolon, or the closing brace, which is left in place. -/
def fieldEnd (finish : Place) : Step Unit
  | ts@(t :: rest) =>
    match t.kind with
    | .semicolon _ => .ok ((), rest)
    | .punct .closeBrace => .ok ((), ts)
    | _ => refuse finish .expectedTerminator ts
  | [] => refuse finish .expectedTerminator []

/-- The rest of a type name after its first word: nothing, or a dot and a second name. -/
def nameRest (finish : Place) (first : List Char) : Step TypeExpr
  | ts@(t :: rest) =>
    if t.kind = .punct .dot then do
      let (second, left) ← name finish .type rest
      return (.named (first ++ '.' :: second), left)
    else .ok (.named first, ts)
  | [] => .ok (.named first, [])

/-- A field that starts with a name is embedded if nothing that could be its type follows. -/
def isEmbedded : List Token → Bool
  | [] => false
  | t :: _ =>
    match t.kind with
    | .semicolon _ => true
    | .str _ => true
    | .punct .closeBrace => true
    | .punct .dot => true
    | _ => false

/-- A field's tag, if it has one. -/
def tag : List Token → Option (List Char) × List Token
  | ts@(t :: rest) =>
    match t.kind with
    | .str literal => (some literal, rest)
    | _ => (none, ts)
  | [] => (none, [])

/-- A comment on the line of the field before it, if there is one. -/
def trailingComment : List Token → Option (List Char) × List Token
  | ts@(t :: rest) =>
    match t.kind with
    | .comment text => if t.newlines = 0 then (some text, rest) else (none, ts)
    | _ => (none, ts)
  | [] => (none, [])

/-! ## Types and struct bodies -/

mutual

/-- A type. -/
def type (finish : Place) : Nat → Step TypeExpr
  | 0, ts => refuse finish .expectedType ts
  | _ + 1, [] => refuse finish .expectedType []
  | n + 1, ts@(t :: rest) =>
    match t.kind with
    | .word text =>
      if text = "struct".toList then do
        let (_, body) ← punct finish .openBrace rest
        let ((members, last), left) ← members finish n body
        return (.struct members (last ≠ (placeOf finish rest).line), left)
      else if text = "interface".toList then do
        let (_, rest) ← punct finish .openBrace rest
        let (_, left) ← punct finish .closeBrace rest
        return (.emptyInterface, left)
      else if text = "map".toList then do
        let (_, rest) ← punct finish .openBracket rest
        let (key, rest) ← type finish n rest
        let (_, rest) ← punct finish .closeBracket rest
        let (value, left) ← type finish n rest
        return (.map key value, left)
      else if isKeyword text then refuse finish (.unexpectedKeyword text) ts
      else nameRest finish text rest
    | .punct .star => do
      let (target, left) ← type finish n rest
      return (.pointer target, left)
    | .punct .openBracket =>
      match rest with
      | next :: rest' =>
        match next.kind with
        | .punct .closeBracket => do
          let (element, left) ← type finish n rest'
          return (.slice element, left)
        | .int digits => do
          let (_, rest'') ← punct finish .closeBracket rest'
          let (element, left) ← type finish n rest''
          return (.array digits element, left)
        | _ => refuse finish .expectedLength rest
      | [] => refuse finish .expectedLength []
    | _ => refuse finish .expectedType ts

/-- The members of a struct up to its closing brace, and the line of that brace. -/
def members (finish : Place) : Nat → Step (List Member × Nat)
  | 0, ts => refuse finish .openStruct ts
  | _ + 1, [] => refuse finish .openStruct []
  | n + 1, ts@(t :: rest) =>
    match t.kind with
    | .punct .closeBrace => .ok (([], t.place.line), rest)
    | .comment text => do
      let ((more, last), left) ← members finish n rest
      return ((.comment t.newlines text :: more, last), left)
    | .word text =>
      if isKeyword text then refuse finish (.keywordAsName .field text) ts
      else if isEmbedded rest then do
        let (type, rest) ← nameRest finish text rest
        let (tag, rest) := tag rest
        let (_, rest) ← fieldEnd finish rest
        let (comment, rest) := trailingComment rest
        let ((more, last), left) ← members finish n rest
        return ((.field t.newlines none type tag comment :: more, last), left)
      else do
        let (type, rest) ← type finish n rest
        let (tag, rest) := tag rest
        let (_, rest) ← fieldEnd finish rest
        let (comment, rest) := trailingComment rest
        let ((more, last), left) ← members finish n rest
        return ((.field t.newlines (some text) type tag comment :: more, last), left)
    | .punct .star => do
      let (target, rest) ← type finish n rest
      let (tag, rest) := tag rest
      let (_, rest) ← fieldEnd finish rest
      let (comment, rest) := trailingComment rest
      let ((more, last), left) ← members finish n rest
      return ((.field t.newlines none (.pointer target) tag comment :: more, last), left)
    | _ => refuse finish .expectedMember ts

end

/-! ## Files -/

/-- The items of a file.  `packaged` tells whether the package clause has been read: it comes
first, comments apart, and only once. -/
def items (finish : Place) : Nat → Bool → List Token → Except FormatError (List Item)
  | _, true, [] => .ok []
  | _, false, [] => refuse finish .expectedPackage []
  | 0, _, ts => refuse finish .expectedDeclaration ts
  | n + 1, packaged, ts@(t :: rest) =>
    match t.kind with
    | .comment text => do
      let more ← items finish n packaged rest
      return ⟨t.newlines, .comment text⟩ :: more
    | .word text =>
      if text = "package".toList ∧ packaged = false then do
        let (name, rest) ← name finish .package rest
        if isPackageName name = false then refuse finish (.invalidPackageName name) ts
        let (_, rest) ← terminator finish rest
        let more ← items finish n true rest
        return ⟨t.newlines, .package name⟩ :: more
      else if text = "type".toList ∧ packaged = true then do
        let (name, rest) ← name finish .type rest
        let (type, rest) ← type finish n rest
        let (_, rest) ← terminator finish rest
        let more ← items finish n true rest
        return ⟨t.newlines, .type name type⟩ :: more
      else refuse finish (if packaged then .expectedDeclaration else .expectedPackage) ts
    | _ => refuse finish (if packaged then .expectedDeclaration else .expectedPackage) ts

end Parse

/-- The file that a scanned text says. -/
def parse (s : Scanned) : Except FormatError (List Item) :=
  Parse.items s.finish s.tokens.length false s.tokens

end SchemaToGo.Go
