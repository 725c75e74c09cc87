import SchemaToGo.Proofs.Go.Tag
import SchemaToGo.Proofs.Text.Split
set_option autoImplicit false

/-!
# Reading tags back

A tag is quoted twice: its value is escaped inside the tag, and the tag inside its literal.  Both
are undone by the same rule, that of string literals, so what a tag says can be read back:
`fieldTag_says`.  Escaping leaves commas alone, though, and a comma ends a JSON name.  So a required
field can have the tag of an optional one, and `fieldTag_eq_iff` says when.

Normative source: SPEC_FULL.md section 4.3, and section 8: `omitempty` stands exactly if a field is
not required.
-/

namespace SchemaToGo.Go

/-! ## Quoted text -/

/-- The text before the first quote that no backslash escapes, and the text after it. -/
def untilQuote? : List Char → Option (List Char × List Char)
  | [] => none
  | '"' :: rest => some ([], rest)
  | '\\' :: c :: rest => (untilQuote? rest).map fun r => ('\\' :: c :: r.1, r.2)
  | c :: rest => (untilQuote? rest).map fun r => (c :: r.1, r.2)

/-- The value of a hexadecimal digit. -/
def hexValue? (c : Char) : Option Nat :=
  if '0' ≤ c ∧ c ≤ '9' then some (c.toNat - 48)
  else if 'a' ≤ c ∧ c ≤ 'f' then some (c.toNat - 87)
  else if 'A' ≤ c ∧ c ≤ 'F' then some (c.toNat - 55)
  else none

/-- The character whose code has the given hexadecimal digits. -/
def charOfCode? (digits : List Char) : Option Char := do
  let n := (← digits.mapM hexValue?).foldl (fun n d => 16 * n + d) 0
  if n.isValidChar then some (Char.ofNat n) else none

/-- The character that a backslash and a character stand for. -/
def charOfEscape? (c : Char) : Option Char :=
  if c = '\\' ∨ c = '"' then some c
  else if c = 'n' then some '\n'
  else if c = 'r' then some '\r'
  else if c = 't' then some '\t'
  else none

/-- Quoted text with its escapes undone.  The escapes that tags are written with are known, and no
others. -/
def unescape? : List Char → Option (List Char)
  | [] => some []
  | '\\' :: 'u' :: a :: b :: c :: d :: rest => do
    return (← charOfCode? [a, b, c, d]) :: (← unescape? rest)
  | '\\' :: c :: rest => do return (← charOfEscape? c) :: (← unescape? rest)
  | c :: rest => if c = '\\' then none else do return c :: (← unescape? rest)

/-! ## Literals and tags -/

/-- The text that a string literal stands for.  Raw literals are taken as they are. -/
def literalText? : List Char → Option (List Char)
  | '`' :: rest =>
    match Text.splitAll (· == '`') rest with
    | [text, []] => some text
    | _ => none
  | '"' :: rest =>
    match untilQuote? rest with
    | some (text, []) => unescape? text
    | _ => none
  | _ => none

/-- A character that may stand in the key of a tag. -/
def isKeyChar (c : Char) : Bool := ' ' < c && c != ':' && c != '"' && c != '\x7F'

/-- A key and its value, with the value's escapes. -/
structure TagEntry where
  key : List Char
  value : List Char
  deriving DecidableEq

/-- The first key of a tag with its value, and the text after them. -/
def tagEntry? (tag : List Char) : Option (TagEntry × List Char) :=
  match tag.dropWhile isKeyChar with
  | ':' :: '"' :: rest => (untilQuote? rest).map fun r => (⟨tag.takeWhile isKeyChar, r.1⟩, r.2)
  | _ => none

/-! ## Escaped text -/

/-- No quote stands in the text but after a backslash, and no backslash alone. -/
inductive Escaped : List Char → Prop
  | nil : Escaped []
  | plain {c : Char} {t : List Char} : c ≠ '"' → c ≠ '\\' → Escaped t → Escaped (c :: t)
  | pair (c : Char) {t : List Char} : Escaped t → Escaped ('\\' :: c :: t)

theorem Escaped.append {t u : List Char} (ht : Escaped t) (hu : Escaped u) : Escaped (t ++ u) := by
  induction ht with
  | nil => exact hu
  | plain hquote hslash _ ih => exact ih.plain hquote hslash
  | pair c _ ih => exact ih.pair c

theorem Escaped.flatMap {f : Char → List Char} (hf : ∀ c, Escaped (f c)) (t : List Char) :
    Escaped (t.flatMap f) := by
  induction t with
  | nil => exact .nil
  | cons c t ih =>
    rw [List.flatMap_cons]
    exact (hf c).append ih

/-- The quote after escaped text ends it. -/
theorem Escaped.untilQuote? {t : List Char} (ht : Escaped t) (rest : List Char) :
    untilQuote? (t ++ '"' :: rest) = some (t, rest) := by
  induction ht with
  | nil => simp [Go.untilQuote?]
  | plain hquote hslash _ ih => simp [Go.untilQuote?, hslash, ih]
  | pair c _ ih => simp [Go.untilQuote?, ih]

/-- The first text is the second one with escapes, whatever follows. -/
def Undoes (t s : List Char) : Prop :=
  ∀ rest, unescape? (t ++ rest) = (unescape? rest).map (s ++ ·)

theorem Undoes.nil : Undoes [] [] := by
  intro rest
  cases h : unescape? rest <;> simp [h]

theorem Undoes.append {t u s v : List Char} (ht : Undoes t s) (hu : Undoes u v) :
    Undoes (t ++ u) (s ++ v) := by
  intro rest
  rw [List.append_assoc, ht, hu]
  cases unescape? rest <;> simp

theorem Undoes.flatMap {f : Char → List Char} (hf : ∀ c, Undoes (f c) [c]) (s : List Char) :
    Undoes (s.flatMap f) s := by
  induction s with
  | nil => exact .nil
  | cons c s ih =>
    rw [List.flatMap_cons]
    exact (hf c).append ih

theorem Undoes.unescape? {t s : List Char} (h : Undoes t s) : unescape? t = some s := by
  have hall := h []
  simpa [Go.unescape?] using hall

theorem undoes_plain {c : Char} (h : c ≠ '\\') : Undoes [c] [c] := by
  intro rest
  cases hrest : unescape? rest <;> simp [unescape?, h, hrest]

theorem undoes_pair {c d : Char} (hu : c ≠ 'u') (h : charOfEscape? c = some d) :
    Undoes ['\\', c] [d] := by
  intro rest
  cases hrest : unescape? rest <;> simp [unescape?, hu, h, hrest]

theorem undoes_code {a b c d x : Char} (h : charOfCode? [a, b, c, d] = some x) :
    Undoes ['\\', 'u', a, b, c, d] [x] := by
  intro rest
  cases hrest : unescape? rest <;> simp [unescape?, h, hrest]

/-! ## What fields' tags are made of -/

theorem hexValue?_hexDigit : ∀ n < 16, hexValue? (hexDigit n) = some n := by decide

/-- Two digits are enough for the code of a control character. -/
theorem charOfCode?_control {c : Char} (h : Text.isControl c = true) :
    charOfCode? ['0', '0', hexDigit (c.toNat / 16 % 16), hexDigit (c.toNat % 16)] = some c := by
  have hcode : c.toNat < 256 := by
    simp only [Text.isControl, Bool.or_eq_true, Bool.and_eq_true, decide_eq_true_eq] at h
    omega
  have hhigh := hexValue?_hexDigit (c.toNat / 16 % 16) (Nat.mod_lt _ (by decide))
  have hlow := hexValue?_hexDigit (c.toNat % 16) (Nat.mod_lt _ (by decide))
  have hzero : hexValue? '0' = some 0 := rfl
  have hdigits : 16 * (c.toNat / 16 % 16) + c.toNat % 16 = c.toNat := by omega
  have hvalid : c.toNat.isValidChar := .inl (by omega)
  simp [charOfCode?, hhigh, hlow, hzero, hdigits, hvalid]

/-- A character of a JSON name stands in a tag after a backslash, by its code or as it is. -/
theorem escapeTagChar_cases (c : Char) :
    (∃ d, escapeTagChar c = ['\\', d] ∧ d ≠ 'u' ∧ charOfEscape? d = some c) ∨
    (∃ m n, escapeTagChar c = ['\\', 'u', '0', '0', hexDigit (m % 16), hexDigit (n % 16)] ∧
      charOfCode? ['0', '0', hexDigit (m % 16), hexDigit (n % 16)] = some c) ∨
    (escapeTagChar c = [c] ∧ c ≠ '"' ∧ c ≠ '\\') := by
  unfold escapeTagChar
  split
  · next h => exact .inl ⟨'\\', rfl, by decide, by rw [h]; rfl⟩
  next hslash =>
  split
  · next h => exact .inl ⟨'"', rfl, by decide, by rw [h]; rfl⟩
  next hquote =>
  split
  · next h => exact .inl ⟨'n', rfl, by decide, by rw [h]; rfl⟩
  split
  · next h => exact .inl ⟨'r', rfl, by decide, by rw [h]; rfl⟩
  split
  · next h => exact .inl ⟨'t', rfl, by decide, by rw [h]; rfl⟩
  split
  · next hcontrol => exact .inr (.inl ⟨_, _, rfl, charOfCode?_control hcontrol⟩)
  · exact .inr (.inr ⟨rfl, hquote, hslash⟩)

theorem undoes_escapeTagChar (c : Char) : Undoes (escapeTagChar c) [c] := by
  rcases escapeTagChar_cases c with ⟨d, heq, hu, hd⟩ | ⟨m, n, heq, hcode⟩ | ⟨heq, _, hslash⟩
  · rw [heq]
    exact undoes_pair hu hd
  · rw [heq]
    exact undoes_code hcode
  · rw [heq]
    exact undoes_plain hslash

theorem hexDigit_ne : ∀ n < 16, hexDigit n ≠ '"' ∧ hexDigit n ≠ '\\' := by decide

theorem Escaped.hexDigit (n : Nat) {t : List Char} (h : Escaped t) :
    Escaped (hexDigit (n % 16) :: t) := by
  obtain ⟨hquote, hslash⟩ := hexDigit_ne (n % 16) (Nat.mod_lt _ (by decide))
  exact h.plain hquote hslash

theorem escaped_escapeTagChar (c : Char) : Escaped (escapeTagChar c) := by
  rcases escapeTagChar_cases c with ⟨d, heq, _⟩ | ⟨m, n, heq, _⟩ | ⟨heq, hquote, hslash⟩
  · rw [heq]
    exact .pair d .nil
  · rw [heq]
    have hdigits := Escaped.hexDigit m (Escaped.hexDigit n .nil)
    exact .pair 'u' (.plain (by decide) (by decide) (.plain (by decide) (by decide) hdigits))
  · rw [heq]
    exact .plain hquote hslash .nil

/-- A character of a tag stands in an interpreted literal after a backslash or as it is. -/
theorem escapeLiteralChar_cases (c : Char) :
    (escapeLiteralChar c = ['\\', c] ∧ c ≠ 'u' ∧ charOfEscape? c = some c) ∨
    (escapeLiteralChar c = [c] ∧ c ≠ '"' ∧ c ≠ '\\') := by
  unfold escapeLiteralChar
  split
  · next h => exact .inl ⟨by rw [h], by rw [h]; decide, by rw [h]; rfl⟩
  next hslash =>
  split
  · next h => exact .inl ⟨by rw [h], by rw [h]; decide, by rw [h]; rfl⟩
  · next hquote => exact .inr ⟨rfl, hquote, hslash⟩

theorem undoes_escapeLiteralChar (c : Char) : Undoes (escapeLiteralChar c) [c] := by
  rcases escapeLiteralChar_cases c with ⟨heq, hu, hd⟩ | ⟨heq, _, hslash⟩
  · rw [heq]
    exact undoes_pair hu hd
  · rw [heq]
    exact undoes_plain hslash

theorem escaped_escapeLiteralChar (c : Char) : Escaped (escapeLiteralChar c) := by
  rcases escapeLiteralChar_cases c with ⟨heq, _⟩ | ⟨heq, hquote, hslash⟩
  · rw [heq]
    exact .pair c .nil
  · rw [heq]
    exact .plain hquote hslash .nil

/-! ## What fields' tags say -/

/-- A literal stands for the tag it was made of, whichever kind it is of. -/
theorem literalText?_tagLiteral (tag : List Char) : literalText? (tagLiteral tag) = some tag := by
  unfold tagLiteral
  split
  · have hescaped := Escaped.flatMap escaped_escapeLiteralChar tag
    have hundoes := Undoes.flatMap undoes_escapeLiteralChar tag
    show (match untilQuote? (tag.flatMap escapeLiteralChar ++ '"' :: []) with
      | some (text, []) => unescape? text
      | _ => none) = some tag
    rw [hescaped.untilQuote?]
    exact hundoes.unescape?
  · next hback =>
    have hsplit : Text.splitAll (· == '`') (tag ++ '`' :: []) = [tag, []] := by
      refine Text.splitAll_append_cons (fun c hc => ?_) rfl []
      refine beq_eq_false_iff_ne.mpr fun heq => hback ?_
      exact List.contains_iff_mem.mpr (heq ▸ hc)
    show (match Text.splitAll (· == '`') (tag ++ '`' :: []) with
      | [text, []] => some text
      | _ => none) = some tag
    rw [hsplit]

/-- What the value of a field's tag says: the JSON name, and the option to leave out empty values if
the field is optional. -/
def tagValue (f : Field) : List Char :=
  f.jsonName.toList ++ if f.required then [] else ",omitempty".toList

/-- Nothing in the option is escaped, so the whole value is. -/
theorem tagText_eq (f : Field) :
    tagText f = "json:\"".toList ++ escapeTagValue (tagValue f) ++ ['"'] := by
  have hoption : escapeTagValue (if f.required then [] else ",omitempty".toList) =
      if f.required then [] else ",omitempty".toList := by
    cases f.required <;> rfl
  unfold escapeTagValue at hoption
  unfold tagText tagValue escapeTagValue
  rw [List.flatMap_append, hoption]
  simp only [List.append_assoc]

theorem unescape?_escapeTagValue (value : List Char) :
    unescape? (escapeTagValue value) = some value :=
  (Undoes.flatMap undoes_escapeTagChar value).unescape?

/-- A field's tag has one key and nothing after its value. -/
theorem tagEntry?_tagText (f : Field) :
    tagEntry? (tagText f) = some (⟨"json".toList, escapeTagValue (tagValue f)⟩, []) := by
  have hescaped : Escaped (escapeTagValue (tagValue f)) := .flatMap escaped_escapeTagChar _
  rw [tagText_eq]
  show (untilQuote? (escapeTagValue (tagValue f) ++ ['"'])).map _ = _
  rw [hescaped.untilQuote?]
  rfl

/-- A field's tag can be read back.  Its literal stands for a tag with the one key `json`, whose
value is the JSON name with its escapes, and the option to leave out empty values if the field is
optional.  Wherever the literal stands in a text, it is scanned as one token and kept as it is. -/
theorem fieldTag_says (f : Field) :
    (∃ value, literalText? (fieldTag f) = some ("json:\"".toList ++ value ++ ['"']) ∧
      tagEntry? ("json:\"".toList ++ value ++ ['"']) = some (⟨"json".toList, value⟩, []) ∧
      unescape? value =
        some (f.jsonName.toList ++ if f.required then [] else ",omitempty".toList)) ∧
    ∀ (s : ScanState) (rest : List Char),
      scanFrom s (fieldTag f ++ rest) =
        Scanned.after [⟨.str (fieldTag f), s.place, s.newlines⟩]
          (scanFrom ⟨s.place.advance (fieldTag f), 0, true⟩ rest) := by
  constructor
  · refine ⟨escapeTagValue (tagValue f), ?_, ?_, unescape?_escapeTagValue _⟩
    · rw [← tagText_eq]
      exact literalText?_tagLiteral (tagText f)
    · rw [← tagText_eq]
      exact tagEntry?_tagText f
  · intro s rest
    have hfits : (Piece.token (.str (fieldTag f))).Fits rest.head? := ⟨spelled_fieldTag f, trivial⟩
    exact scanFrom_piece s hfits

/-! ## Tags apart -/

/-- What a literal says as the tag of a field, if it is one. -/
def literalValue? (literal : List Char) : Option (List Char) := do
  match ← tagEntry? (← literalText? literal) with
  | (⟨key, value⟩, []) => if key = "json".toList then unescape? value else none
  | _ => none

/-- The literal says that empty values are left out.  What a tag says ends the JSON name at the
first comma, and options stand between commas after it. -/
def OmitsEmpty (literal : List Char) : Prop :=
  ∃ value, literalValue? literal = some value ∧
    "omitempty".toList ∈ (Text.splitAll (· == ',') value).tail

/-- A required field whose JSON name ends as the tag of an optional one does. -/
def Feigns (f g : Field) : Prop :=
  f.required = true ∧ g.required = false ∧ f.jsonName = g.jsonName ++ ",omitempty"

theorem literalValue?_fieldTag (f : Field) : literalValue? (fieldTag f) = some (tagValue f) := by
  unfold literalValue? fieldTag
  rw [literalText?_tagLiteral]
  simp [tagEntry?_tagText, unescape?_escapeTagValue]

/-- The tags of two fields are the same exactly if they say the same. -/
theorem fieldTag_eq_iff_tagValue (f g : Field) :
    fieldTag f = fieldTag g ↔ tagValue f = tagValue g := by
  constructor
  · intro h
    have hvalue := congrArg literalValue? h
    rw [literalValue?_fieldTag, literalValue?_fieldTag] at hvalue
    exact Option.some.inj hvalue
  · intro h
    unfold fieldTag
    rw [tagText_eq, tagText_eq, h]

/-- Tags say the same of fields that are alike, and of a required field that feigns to be an
optional one. -/
theorem tagValue_eq_iff (f g : Field) :
    tagValue f = tagValue g ↔
      (f.jsonName = g.jsonName ∧ f.required = g.required) ∨ Feigns f g ∨ Feigns g f := by
  unfold tagValue Feigns
  simp only [← String.toList_inj, String.toList_append]
  cases f.required <;> cases g.required <;> simp [eq_comm]

/-- The option is said of optional fields, and of those whose JSON name has it after a comma. -/
theorem omitsEmpty_fieldTag_iff (f : Field) :
    OmitsEmpty (fieldTag f) ↔ f.required = false ∨
      "omitempty".toList ∈ (Text.splitAll (· == ',') f.jsonName.toList).tail := by
  unfold OmitsEmpty
  rw [literalValue?_fieldTag]
  unfold tagValue
  cases f.required with
  | true => simp
  | false =>
    obtain ⟨name, options, hsplit⟩ := Text.exists_splitAll (· == ',') f.jsonName.toList
    have hoption : Text.splitAll (· == ',') (f.jsonName.toList ++ ",omitempty".toList) =
        name :: (options ++ ["omitempty".toList]) := by
      have hmark := Text.splitAll_append_mark (p := (· == ',')) (c := ',') rfl f.jsonName.toList
        "omitempty".toList
      rw [hsplit] at hmark
      exact hmark
    constructor
    · intro _
      exact .inl rfl
    · intro _
      refine ⟨f.jsonName.toList ++ ",omitempty".toList, rfl, ?_⟩
      rw [hoption, List.tail_cons]
      exact List.mem_append_right _ (List.mem_singleton_self _)

/-- The tags of two fields are the same exactly if the fields have the same JSON name and are both
required or both optional, or if one is required and its JSON name is that of the other, which is
optional, with the option after it.  A tag says that empty values are left out exactly if the field
is optional or its JSON name has the option after a comma. -/
theorem fieldTag_eq_iff (f g : Field) :
    (fieldTag f = fieldTag g ↔
      (f.jsonName = g.jsonName ∧ f.required = g.required) ∨ Feigns f g ∨ Feigns g f) ∧
    (OmitsEmpty (fieldTag f) ↔ f.required = false ∨
      "omitempty".toList ∈ (Text.splitAll (· == ',') f.jsonName.toList).tail) := by
  constructor
  · rw [fieldTag_eq_iff_tagValue]
    exact tagValue_eq_iff f g
  · exact omitsEmpty_fieldTag_iff f

/-- A required field whose JSON name holds a comma. -/
def fieldWithComma : Field := ⟨"AOmitempty", "a,omitempty", "string", true, none⟩

/-- An optional field whose JSON name is what stands before that comma. -/
def fieldBeforeComma : Field := ⟨"A", "a", "string", false, none⟩

theorem fieldTag_comma : fieldTag fieldWithComma = fieldTag fieldBeforeComma ∧
    fieldWithComma.jsonName ≠ fieldBeforeComma.jsonName ∧
    fieldWithComma.required = true ∧ fieldBeforeComma.required = false ∧
    OmitsEmpty (fieldTag fieldWithComma) :=
  ⟨by decide, by decide, rfl, rfl, "a,omitempty".toList, by decide, by decide⟩

end SchemaToGo.Go
