import SchemaToGo.Go.Identifier
import SchemaToGo.Go.Problem
set_option autoImplicit false

/-!
# Tokens

The words of Go text.  Blanks between tokens are not kept, but every token knows its place and how
many line breaks stand before it.  A semicolon is either written or inserted where a line ends
after a token that can end a statement.

Normative source: SPEC_FULL.md section 4.4, on automatic semicolons.
-/

namespace SchemaToGo.Go

/-- What a token is, with its text where the kind alone does not give it. -/
inductive Kind where
  /-- an identifier or a keyword -/
  | word (text : List Char)
  /-- a decimal number -/
  | int (digits : List Char)
  /-- a string literal with its quotes -/
  | str (literal : List Char)
  /-- a line comment with its slashes -/
  | comment (text : List Char)
  | punct (p : Punct)
  | semicolon (inserted : Bool)
  deriving DecidableEq, Repr

namespace Kind

/-- A line break after the token ends a statement. -/
def endsStatement : Kind → Bool
  | word text => !isKeyword text || closingKeywords.contains text
  | int _ => true
  | str _ => true
  | punct .closeBracket => true
  | punct .closeBrace => true
  | _ => false

/-- How the token is written.  An inserted semicolon is not. -/
def spelling : Kind → List Char
  | word text => text
  | int digits => digits
  | str literal => literal
  | comment text => text
  | punct p => [p.char]
  | semicolon false => [';']
  | semicolon true => []

end Kind

/-- A token in its place. -/
structure Token where
  kind : Kind
  place : Place
  /-- line breaks between the token before and this one -/
  newlines : Nat
  deriving DecidableEq, Repr

end SchemaToGo.Go
