import SchemaToGo.Text.Split
set_option autoImplicit false

/-!
# JSON Pointers

A pointer names a place in a document by the steps from its root: every step is written as `/` and
the step's text, in which `~` is written `~0` and `/` is written `~1`.  Pointers serve twice, to
name the schema an error is about and to resolve the fragment of a reference.

Normative source: SPEC_FULL.md section 2, item 8.
-/

namespace SchemaToGo.Pointer

/-! ## Building -/

/-- A step's text with its tildes and slashes escaped. -/
def escape : List Char → List Char
  | [] => []
  | '~' :: rest => '~' :: '0' :: escape rest
  | '/' :: rest => '~' :: '1' :: escape rest
  | c :: rest => c :: escape rest

/-- The pointer one step further. -/
def push (pointer step : String) : String :=
  pointer ++ "/" ++ String.ofList (escape step.toList)

/-- The pointer that takes the given steps from the root. -/
def ofSegments (steps : List String) : String :=
  steps.foldl push ""

/-! ## Splitting -/

/-- Every occurrence of the two characters `a b`, from left to right, replaced by `c`. -/
def replacePair (a b c : Char) : List Char → List Char
  | x :: y :: rest =>
    if x = a ∧ y = b then c :: replacePair a b c rest else x :: replacePair a b c (y :: rest)
  | short => short

/-- The text of a step.  Slashes are undone before tildes, so `~01` is the text `~1`. -/
def unescape (t : List Char) : List Char :=
  replacePair '~' '0' '~' (replacePair '~' '1' '/' t)

/-- The steps of a pointer.  The empty pointer names the root and has none; every other pointer
starts with a slash. -/
def segments? (pointer : String) : Option (List String) :=
  match pointer.toList with
  | [] => some []
  | '/' :: rest =>
    some ((Text.splitAll (· = '/') rest).map fun step => String.ofList (unescape step))
  | _ => none

end SchemaToGo.Pointer
