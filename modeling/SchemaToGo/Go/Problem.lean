import SchemaToGo.Text.Quoted
set_option autoImplicit false

/-!
# What can be wrong with Go text

A text outside the formatted subset is refused with the place where it leaves the subset and the
reason.  `Problem.message` holds the wording of every reason.

Normative source: SPEC_FULL.md section 4.4: syntax errors carry a line and a column, both counted
from one.
-/

namespace SchemaToGo.Go

/-- A place in a text: line and column, both counted from one in characters. -/
structure Place where
  line : Nat
  column : Nat
  deriving DecidableEq, Repr

namespace Place

/-- The first place of a text. -/
def start : Place := ⟨1, 1⟩

/-- The place after a character. -/
def after (p : Place) (c : Char) : Place :=
  if c = '\n' then ⟨p.line + 1, 1⟩ else ⟨p.line, p.column + 1⟩

/-- The place after a text. -/
def advance (p : Place) (t : List Char) : Place := t.foldl after p

end Place

/-- The punctuation of the subset, the semicolon apart. -/
inductive Punct where
  | star
  | openBracket
  | closeBracket
  | openBrace
  | closeBrace
  | dot
  deriving DecidableEq, Repr

namespace Punct

/-- How a punctuation mark is written. -/
def char : Punct → Char
  | star => '*'
  | openBracket => '['
  | closeBracket => ']'
  | openBrace => '{'
  | closeBrace => '}'
  | dot => '.'

/-- The punctuation mark that a character is. -/
def ofChar? (c : Char) : Option Punct :=
  if c = '*' then some star
  else if c = '[' then some openBracket
  else if c = ']' then some closeBracket
  else if c = '{' then some openBrace
  else if c = '}' then some closeBrace
  else if c = '.' then some dot
  else none

theorem ofChar?_eq_some_iff {c : Char} {p : Punct} : ofChar? c = some p ↔ c = p.char := by
  constructor
  · intro h
    unfold ofChar? at h
    repeat' split at h
    all_goals first | (cases h; assumption) | cases h
  · rintro rfl
    cases p <;> decide

end Punct

/-- What an identifier is expected for. -/
inductive NameRole where
  | package
  | type
  | field
  deriving DecidableEq, Repr

/-- How a role is named in messages. -/
def NameRole.label : NameRole → String
  | package => "package name"
  | type => "type name"
  | field => "field name"

/-- Why a text is outside the subset. -/
inductive Problem where
  | blockComment
  | unexpectedCharacter (c : Char)
  | openRawString
  | openString
  | unknownEscape
  | expectedPunct (p : Punct)
  | expectedName (role : NameRole)
  | keywordAsName (role : NameRole) (word : List Char)
  | expectedTerminator
  | invalidPackageName (name : List Char)
  | expectedPackage
  | expectedDeclaration
  | expectedType
  | unexpectedKeyword (word : List Char)
  | expectedLength
  | openStruct
  | expectedMember
  deriving DecidableEq, Repr

/-- The wording of a problem. -/
def Problem.message : Problem → String
  | blockComment => "only line comments are supported"
  | unexpectedCharacter c => "unexpected character " ++ Text.quoteChar c
  | openRawString => "raw string literal not terminated"
  | openString => "string literal not terminated"
  | unknownEscape => "unknown escape sequence"
  | expectedPunct p => "expected '" ++ String.singleton p.char ++ "'"
  | expectedName role => "expected " ++ role.label
  | keywordAsName role word =>
    "expected " ++ role.label ++ ", found keyword '" ++ String.ofList word ++ "'"
  | expectedTerminator => "expected newline or ';'"
  | invalidPackageName name => "invalid package name '" ++ String.ofList name ++ "'"
  | expectedPackage => "expected 'package'"
  | expectedDeclaration => "expected declaration"
  | expectedType => "expected type"
  | unexpectedKeyword word => "unexpected keyword '" ++ String.ofList word ++ "'"
  | expectedLength => "expected ']' or array length"
  | openStruct => "struct type not terminated"
  | expectedMember => "expected field name or '\x7d'"

/-- A problem and the place where it was found. -/
structure FormatError where
  place : Place
  problem : Problem
  deriving DecidableEq, Repr

/-- The wording of an error: the place, then the problem. -/
def FormatError.message (e : FormatError) : String :=
  s!"{e.place.line}:{e.place.column}: " ++ e.problem.message

end SchemaToGo.Go
