import SchemaToGo.Json.Value
set_option autoImplicit false

/-!
# The grammar of JSON

What a JSON text is and which value it has, said without a reader.  A text has a tree: the values
of its literals, arranged in arrays and objects as the text arranges them.  A literal has the value
that it is decoded to, or none, if it is well-formed but cannot be decoded: a string literal with
half of a surrogate pair, or a number out of range.  Blanks between tokens leave no trace in the
tree.
-/

namespace SchemaToGo.Json

/-! ## Trees -/

/-- A JSON value as a text has it.  Objects keep the order of the text, and literals that cannot be
decoded stay without a value. -/
inductive Tree where
  | null
  | bool (b : Bool)
  | number (n : Option Number)
  | string (s : Option String)
  | array (elements : List Tree)
  | object (members : List (Option String × Tree))

instance : Inhabited Tree := ⟨.null⟩

/-- The second value is the first one up to the order of members within objects.  Values are put
together by `array` and `object`, and `key?` is what a key stands for, if it stands for anything.
The members of an object change places only if no key occurs twice among them. -/
inductive ReorderedBy {α κ : Type} (array : List α → α) (object : List (κ × α) → α)
    (key? : κ → Option String) : α → α → Prop
  | refl (v : α) : ReorderedBy array object key? v v
  | trans {v w x : α} (h : ReorderedBy array object key? v w)
      (h' : ReorderedBy array object key? w x) : ReorderedBy array object key? v x
  | members {ms ns : List (κ × α)} (hkeys : (ms.filterMap fun m => key? m.1).Nodup)
      (h : ms.Perm ns) : ReorderedBy array object key? (object ms) (object ns)
  | element {v w : α} (before after : List α) (h : ReorderedBy array object key? v w) :
      ReorderedBy array object key? (array (before ++ v :: after)) (array (before ++ w :: after))
  | member {v w : α} (before after : List (κ × α)) (key : κ)
      (h : ReorderedBy array object key? v w) :
      ReorderedBy array object key? (object (before ++ (key, v) :: after))
        (object (before ++ (key, w) :: after))

/-- The second tree is the first one up to the order of members within objects. -/
def Tree.Reordered : Tree → Tree → Prop := ReorderedBy array object id

/-! ## Literals -/

/-- The bytes of an ASCII text. -/
def asciiBytes (s : String) : List UInt8 := s.toList.map Byte.ofChar

/-- Blanks and nothing else. -/
def Blanks (bs : List UInt8) : Prop := ∀ b ∈ bs, Byte.isBlank b = true

instance (bs : List UInt8) : Decidable (Blanks bs) :=
  List.decidableBAll (fun b => Byte.isBlank b = true) bs

theorem Blanks.nil : Blanks [] := nofun

/-- Decimal digits and nothing else. -/
def Digits (bs : List UInt8) : Prop := ∀ b ∈ bs, Byte.isDigit b = true

/-- A hexadecimal digit. -/
def IsHex (b : UInt8) : Prop := (Byte.hexValue? b).isSome

/-- What may stand between the quotes of a string literal. -/
inductive Characters : List UInt8 → Prop
  | nil : Characters []
  | plain {b : UInt8} {bs : List UInt8} (hb : Reader.isPlain b = true) (h : Characters bs) :
      Characters (b :: bs)
  | short {b : UInt8} {bs : List UInt8} (hb : (Reader.shortEscape? b).isSome)
      (h : Characters bs) : Characters (Byte.backslash :: b :: bs)
  | hex {a b c d : UInt8} {bs : List UInt8} (ha : IsHex a) (hb : IsHex b) (hc : IsHex c)
      (hd : IsHex d) (h : Characters bs) :
      Characters (Byte.backslash :: Byte.ofChar 'u' :: a :: b :: c :: d :: bs)

theorem Characters.of_plain {bs : List UInt8} (h : ∀ b ∈ bs, Reader.isPlain b = true) :
    Characters bs := by
  induction bs with
  | nil => exact .nil
  | cons b bs ih =>
    exact .plain (h b List.mem_cons_self) (ih fun x hx => h x (List.mem_cons_of_mem b hx))

/-- Bytes between quotes. -/
def quoted (bs : List UInt8) : List UInt8 := Byte.quote :: (bs ++ [Byte.quote])

theorem length_quoted (bs : List UInt8) : (quoted bs).length = bs.length + 2 := by
  simp only [quoted, List.length_cons, List.length_append, List.length_nil]

theorem quoted_append (bs rest : List UInt8) :
    quoted bs ++ rest = Byte.quote :: (bs ++ Byte.quote :: rest) := by
  simp only [quoted, List.cons_append, List.append_assoc, List.nil_append]

/-- A string literal.  Its value is `decodeLiteral?`. -/
inductive StringLiteral : List UInt8 → Prop
  | quoted {bs : List UInt8} (h : Characters bs) : StringLiteral (quoted bs)

/-- The whole part of a number: zero, or digits that do not start with zero. -/
inductive WholePart : List UInt8 → Prop
  | zero : WholePart [Byte.zero]
  | digits {d : UInt8} {ds : List UInt8} (hd : Byte.isDigit d = true) (hne : d ≠ Byte.zero)
      (hds : Digits ds) : WholePart (d :: ds)

/-- The fraction of a number, if it has one. -/
inductive FractionPart : List UInt8 → Prop
  | absent : FractionPart []
  | digits {d : UInt8} {ds : List UInt8} (h : Digits (d :: ds)) :
      FractionPart (Byte.point :: d :: ds)

/-- The exponent of a number, if it has one. -/
inductive ExponentPart : List UInt8 → Prop
  | absent : ExponentPart []
  | digits {mark : UInt8} {sign : List UInt8} {d : UInt8} {ds : List UInt8}
      (hmark : Reader.isExponentMark mark = true)
      (hsign : sign ∈ [[], [Byte.plus], [Byte.minus]]) (h : Digits (d :: ds)) :
      ExponentPart (mark :: (sign ++ d :: ds))

/-- A number literal. -/
inductive NumberLiteral : List UInt8 → Prop
  | parts {sign whole fraction exponent : List UInt8} (hsign : sign ∈ [[], [Byte.minus]])
      (hwhole : WholePart whole) (hfraction : FractionPart fraction)
      (hexponent : ExponentPart exponent) :
      NumberLiteral (sign ++ (whole ++ (fraction ++ exponent)))

/-- The number that a number literal, and nothing else, is read as. -/
def numberOfLiteral? (bs : List UInt8) : Option Number :=
  match Reader.number (Cursor.start bs) with
  | .ok (n, ⟨_, []⟩) => some n
  | _ => none

/-! ## Arrays and objects -/

section

variable {α : Type} (Item : α → List UInt8 → Prop)

/-- What follows an item in brackets: the other items, a comma before each of them, and the closing
bracket. -/
inductive ListTail (closing : UInt8) : List α → List UInt8 → Prop
  | nil {blanks : List UInt8} (h : Blanks blanks) : ListTail closing [] (blanks ++ [closing])
  | cons {blanks blanks' bs tail : List UInt8} {a : α} {as : List α} (h : Blanks blanks)
      (h' : Blanks blanks') (hitem : Item a bs) (htail : ListTail closing as tail) :
      ListTail closing (a :: as) (blanks ++ Byte.comma :: (blanks' ++ (bs ++ tail)))

/-- Items in brackets, after the opening one. -/
inductive ListBody (closing : UInt8) : List α → List UInt8 → Prop
  | nil {blanks : List UInt8} (h : Blanks blanks) : ListBody closing [] (blanks ++ [closing])
  | cons {blanks bs tail : List UInt8} {a : α} {as : List α} (h : Blanks blanks)
      (hitem : Item a bs) (htail : ListTail Item closing as tail) :
      ListBody closing (a :: as) (blanks ++ (bs ++ tail))

end

/-- A member of an object: its key, a colon and its value. -/
inductive MemberText (Item : Tree → List UInt8 → Prop) : Option String × Tree → List UInt8 → Prop
  | mk {key blanks blanks' bs : List UInt8} {t : Tree} (hkey : StringLiteral key)
      (h : Blanks blanks) (h' : Blanks blanks') (hvalue : Item t bs) :
      MemberText Item (decodeLiteral? key, t)
        (key ++ (blanks ++ Byte.colon :: (blanks' ++ bs)))

/-- The bytes are a text of the tree, without blanks around it. -/
inductive ValueText : Tree → List UInt8 → Prop
  | nullName : ValueText .null (asciiBytes "null")
  | trueName : ValueText (.bool true) (asciiBytes "true")
  | falseName : ValueText (.bool false) (asciiBytes "false")
  | number {bs : List UInt8} (h : NumberLiteral bs) :
      ValueText (.number (numberOfLiteral? bs)) bs
  | string {bs : List UInt8} (h : StringLiteral bs) :
      ValueText (.string (decodeLiteral? bs)) bs
  | array {ts : List Tree} {bs : List UInt8} (h : ListBody ValueText Byte.closeBracket ts bs) :
      ValueText (.array ts) (Byte.openBracket :: bs)
  | object {ms : List (Option String × Tree)} {bs : List UInt8}
      (h : ListBody (MemberText ValueText) Byte.closeBrace ms bs) :
      ValueText (.object ms) (Byte.openBrace :: bs)

/-- The bytes are a JSON text of the tree. -/
inductive IsText (t : Tree) : List UInt8 → Prop
  | mk {blanks bs blanks' : List UInt8} (h : Blanks blanks) (htext : ValueText t bs)
      (h' : Blanks blanks') : IsText t (blanks ++ (bs ++ blanks'))

end SchemaToGo.Json
