import SchemaToGo.Go.File
import SchemaToGo.Go.Columns
set_option autoImplicit false

/-!
# Canonical layout

Files are printed one item a line, indented with tabs.  Blank lines are kept, at most one at a
place, and one is added between the package clause and the declarations and above the comments
that document a declaration.  The fields of a struct are aligned in columns; a blank line, a
comment on its own line and a field that needs several lines end a block of aligned fields.

Normative source: SPEC_FULL.md section 4.4, the list of what the canonical layout does.
-/

namespace SchemaToGo.Go

/-- Indentation: one tab for every level. -/
def tabs (depth : Nat) : List Char := List.replicate depth '\t'

/-! ## Struct bodies -/

/-- The content of a line in a struct's body. -/
inductive Line where
  | comment (text : List Char)
  | field (cells : Row)
  deriving DecidableEq, Repr

/-- A line of a struct's body and the line breaks before it. -/
structure BodyLine where
  newlines : Nat
  line : Line
  deriving DecidableEq, Repr

/-- The cells of a field: name, type, tag and comment.  A comment on a named field without a tag
keeps an empty tag cell, so that comments stand in one column. -/
def fieldCells (name : Option (List Char)) (type : List Char) (tag comment : Option (List Char)) :
    Row :=
  name.toList ++ [type] ++ tag.toList ++
    match comment with
    | none => []
    | some text =>
      (if tag.isNone ∧ name.isSome then [[]] else []) ++ [Text.trimEnd text]

/-- The field takes more than one line. -/
def spansLines (cells : Row) : Bool := cells.any fun cell => cell.contains '\n'

/-- The text of a field that takes more than one line: its cells, separated by single spaces. -/
def solitaryText (cells : Row) : List Char :=
  Text.trimEnd ((cells.intersperse [' ']).flatten)

/-- A line of a body. -/
def indented (depth : Nat) (text : List Char) : List Char := tabs depth ++ text ++ ['\n']

/-- The lines of a block of aligned fields. -/
def blockText (depth : Nat) (block : List Row) : List Char :=
  (align block).flatMap (indented depth)

/-- The lines of a body.  `block` holds the aligned fields not yet printed, and `first` tells
whether nothing has been read before. -/
def bodyText (depth : Nat) : Bool → List Row → List BodyLine → List Char
  | _, block, [] => blockText depth block
  | first, block, l :: rest =>
    let apart := !first && 2 ≤ l.newlines
    let printed := if apart then blockText depth block ++ ['\n'] else []
    let block := if apart then [] else block
    printed ++
      match l.line with
      | .comment text =>
        blockText depth block ++ indented depth text ++ bodyText depth false [] rest
      | .field cells =>
        if spansLines cells then
          blockText depth block ++ indented depth (solitaryText cells) ++
            bodyText depth false [] rest
        else bodyText depth false (block ++ [cells]) rest

/-- A struct type, from the lines of its body. -/
def structText (depth : Nat) (multiline : Bool) (lines : List BodyLine) : List Char :=
  if lines.isEmpty then
    if multiline then "struct \x7b\n".toList ++ tabs depth ++ ['}'] else "struct\x7b\x7d".toList
  else "struct \x7b\n".toList ++ bodyText (depth + 1) true [] lines ++ tabs depth ++ ['}']

/-! ## Types -/

mutual

/-- A type as it is written at a level of indentation. -/
def TypeExpr.text (depth : Nat) : TypeExpr → List Char
  | .named name => name
  | .pointer target => '*' :: target.text depth
  | .slice element => '[' :: ']' :: element.text depth
  | .array length element => '[' :: length ++ ']' :: element.text depth
  | .map key value => "map[".toList ++ key.text depth ++ ']' :: value.text depth
  | .emptyInterface => "interface\x7b\x7d".toList
  | .struct members multiline => structText depth multiline (bodyLines (depth + 1) members)
termination_by structural type => type

/-- The lines of a struct's body. -/
def bodyLines (depth : Nat) : List Member → List BodyLine
  | [] => []
  | .comment newlines text :: rest =>
    ⟨newlines, .comment (Text.trimEnd text)⟩ :: bodyLines depth rest
  | .field newlines name type tag comment :: rest =>
    ⟨newlines, .field (fieldCells name (type.text depth) tag comment)⟩ :: bodyLines depth rest
termination_by structural members => members

end

/-! ## Files -/

/-- An item as it is written. -/
def Item.text (item : Item) : List Char :=
  match item.decl with
  | .comment text => Text.trimEnd text
  | .package name => "package ".toList ++ name
  | .type name type => "type ".toList ++ name ++ ' ' :: type.text 0

/-- The comments that items start with, each on the line below the one before, end directly above
a type declaration. -/
def documentsType : List Item → Bool
  | [] => false
  | item :: rest =>
    if item.isComment && item.newlines == 1 then documentsType rest
    else item.isType && item.newlines == 1

/-- A blank line stands before the item even where the text has none (SPEC_FULL.md section 4.4).
`before` holds the items before it, the nearest first, and `after` those after it. -/
def needsBlankLine (before : List Item) (item : Item) (after : List Item) : Bool :=
  let afterComment := before.head?.any Item.isComment
  match item.decl with
  | .package _ => false
  | .comment _ => !afterComment && documentsType after
  | .type _ _ =>
    !afterComment && (before.find? fun i => !i.isComment).all Item.isPackage

/-- What separates an item from the one before it. -/
def separator (before : List Item) (item : Item) (after : List Item) : List Char :=
  if item.isComment && item.newlines == 0 then [' ']
  else if 2 ≤ item.newlines || needsBlankLine before item after then ['\n', '\n']
  else ['\n']

/-- The items after the first, each with what separates it from the one before. -/
def itemsText : List Item → List Item → List Char
  | _, [] => []
  | before, item :: after =>
    separator before item after ++ item.text ++ itemsText (item :: before) after

/-- A file in canonical layout. -/
def fileText : List Item → List Char
  | [] => ['\n']
  | item :: rest => item.text ++ itemsText [item] rest ++ ['\n']

end SchemaToGo.Go
