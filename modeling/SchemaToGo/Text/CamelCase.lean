import SchemaToGo.Text.Casing
import SchemaToGo.Text.Alphanumeric
import SchemaToGo.Text.Split
set_option autoImplicit false

/-!
# Words and upper camel case

A text falls into words at every character that is not alphanumeric, and further at changes of
case: before an upper-case character that follows lower case, and before the last of several
upper-case characters when lower case follows it (`XMLFile` is `XML`, `File`).  In upper camel
case every word has its first character in upper case and the others in lower case, with nothing
in between.

Normative source: SPEC_FULL.md section 10, on names, which asks for upper camel case.
-/

namespace SchemaToGo.Text

/-! ## Words -/

/-- The case of the last cased character of a word so far. -/
inductive WordCase where
  | uncased
  | lower
  | upper
  deriving DecidableEq, Repr

/-- The case of a word after one more character. -/
def WordCase.after (w : WordCase) (c : Char) : WordCase :=
  if isLowercase c then .lower else if isUppercase c then .upper else w

/-- Cut a text of alphanumeric characters at its changes of case.  `word` holds the characters of
the word under way, the last one first. -/
def cutAtCase : List Char → WordCase → List Char → List (List Char)
  | _, _, [] => []
  | word, _, [c] => [(c :: word).reverse]
  | word, w, c :: next :: rest =>
    if w.after c = .lower && isUppercase next then
      (c :: word).reverse :: cutAtCase [] .uncased (next :: rest)
    else if w = .upper && isUppercase c && isLowercase next then
      word.reverse :: cutAtCase [c] .uncased (next :: rest)
    else
      cutAtCase (c :: word) (w.after c) (next :: rest)

/-- The words of a text. -/
def wordsOf (t : List Char) : List (List Char) :=
  (splitAll (fun c => !isAlphanumeric c) t).flatMap (cutAtCase [] .uncased)

/-! ## Capitals -/

/-- The lower-case form of the tail of a word.  A capital sigma that ends the word becomes the
final sigma. -/
def lowerTail : List Char → List Char
  | [] => []
  | ['Σ'] => ['ς']
  | c :: rest => toLower c ++ lowerTail rest

/-- The first character in upper case, the others in lower case. -/
def capitalize : List Char → List Char
  | [] => []
  | c :: rest => toUpper c ++ lowerTail rest

/-- The words of a text, capitalized and joined. -/
def upperCamelCase (t : List Char) : List Char :=
  (wordsOf t).flatMap capitalize

end SchemaToGo.Text
