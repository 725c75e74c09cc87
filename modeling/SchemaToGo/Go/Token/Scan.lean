import SchemaToGo.Go.Token
set_option autoImplicit false

/-!
# Scanning

A text is cut into tokens from left to right, the longest match first.  Blanks separate tokens
and are dropped.  At a line break, before a comment and at the end of the text a semicolon is
inserted if the token before can end a statement.

Normative source: SPEC_FULL.md section 4.4.
-/

namespace SchemaToGo.Go

/-! ## String literals -/

/-- How many digits of which base follow an escape's first character, if it begins an escape. -/
def escapeShape? (c : Char) : Option (Nat × Nat) :=
  if c ∈ ['a', 'b', 'f', 'n', 'r', 't', 'v', '\\', '"'] then some (0, 16)
  else if c = 'x' then some (2, 16)
  else if c = 'u' then some (4, 16)
  else if c = 'U' then some (8, 16)
  else if '0' ≤ c ∧ c ≤ '7' then some (2, 8)
  else none

/-- A digit of base eight or sixteen. -/
def isDigitOf (base : Nat) (c : Char) : Bool :=
  if base = 8 then '0' ≤ c && c ≤ '7'
  else ('0' ≤ c && c ≤ '9') || ('a' ≤ c && c ≤ 'f') || ('A' ≤ c && c ≤ 'F')

/-- The escape that a text starts with, and what follows it. -/
def escape? : List Char → Option (List Char × List Char)
  | [] => none
  | c :: rest =>
    match escapeShape? c with
    | none => none
    | some (n, base) =>
      let digits := rest.take n
      if digits.length = n ∧ digits.all (isDigitOf base) then some (c :: digits, rest.drop n)
      else none

theorem escape?_length {t esc rest : List Char} (h : escape? t = some (esc, rest)) :
    rest.length < t.length := by
  cases t with
  | nil => simp [escape?] at h
  | cons c tail =>
    simp only [escape?] at h
    split at h
    · simp at h
    · split at h
      · simp only [Option.some.injEq, Prod.mk.injEq] at h
        rw [← h.2]
        simp only [List.length_drop, List.length_cons]
        omega
      · simp at h

/-- The rest of an interpreted string after its opening quote, with the closing quote, and what
follows the string.  `opening` is the place of the opening quote and `here` the place reached. -/
def stringRest (opening here : Place) (t : List Char) :
    Except FormatError (List Char × List Char) :=
  match t with
  | [] => .error ⟨opening, .openString⟩
  | c :: rest =>
    if c = '\n' then .error ⟨opening, .openString⟩
    else if c = '"' then .ok (['"'], rest)
    else if c = '\\' then
      match h : escape? rest with
      | none => .error ⟨here.after c, .unknownEscape⟩
      | some (esc, rest') => do
        have : rest'.length < rest.length := escape?_length h
        let (body, left) ← stringRest opening (here.advance (c :: esc)) rest'
        return (c :: esc ++ body, left)
    else do
      let (body, left) ← stringRest opening (here.after c) rest
      return (c :: body, left)
termination_by t.length

/-- The rest of a raw string after its opening backquote, without the closing one, and what
follows the string; nothing if the string is not closed. -/
def rawRest? (t : List Char) : Option (List Char × List Char) :=
  match t.dropWhile (· ≠ '`') with
  | [] => none
  | _ :: left => some (t.takeWhile (· ≠ '`'), left)

/-! ## Lexemes

The token that a text starts with, apart from blanks and line breaks. -/

/-- A token's kind, the text it was read from and the text after it. -/
structure Lexeme where
  kind : Kind
  source : List Char
  rest : List Char

/-- An interpreted string as a lexeme. -/
def stringLexeme (here : Place) (t : List Char) : Except FormatError Lexeme := do
  let (body, left) ← stringRest here (here.after '"') t
  return ⟨.str ('"' :: body), '"' :: body, left⟩

/-- A raw string as a lexeme.  Carriage returns are no part of its value and are dropped. -/
def rawLexeme (here : Place) (t : List Char) : Except FormatError Lexeme :=
  match rawRest? t with
  | none => .error ⟨here, .openRawString⟩
  | some (body, left) =>
    .ok ⟨.str ('`' :: body.filter (· ≠ '\r') ++ ['`']), '`' :: body ++ ['`'], left⟩

/-- A comment as a lexeme: it reaches to the end of its line. -/
def commentLexeme (here : Place) (t : List Char) : Except FormatError Lexeme :=
  match t with
  | '/' :: _ =>
    let text := '/' :: t.takeWhile (· ≠ '\n')
    .ok ⟨.comment text, text, t.dropWhile (· ≠ '\n')⟩
  | _ => .error ⟨here, .blockComment⟩

/-- The lexeme that starts with a given character. -/
def lexeme (here : Place) (c : Char) (rest : List Char) : Except FormatError Lexeme :=
  if c = '/' then commentLexeme here rest
  else if c = '`' then rawLexeme here rest
  else if c = '"' then stringLexeme here rest
  else if c.isDigit then
    let text := c :: rest.takeWhile Char.isDigit
    .ok ⟨.int text, text, rest.dropWhile Char.isDigit⟩
  else if isLetter c then
    let text := c :: rest.takeWhile isWordChar
    .ok ⟨.word text, text, rest.dropWhile isWordChar⟩
  else if c = ';' then .ok ⟨.semicolon false, [';'], rest⟩
  else
    match Punct.ofChar? c with
    | some p => .ok ⟨.punct p, [c], rest⟩
    | none => .error ⟨here, .unexpectedCharacter c⟩

theorem length_dropWhile_le {α : Type} (p : α → Bool) (t : List α) :
    (t.dropWhile p).length ≤ t.length :=
  (List.dropWhile_sublist p).length_le

theorem stringRest_length (opening here : Place) (t : List Char) :
    ∀ {body left : List Char}, stringRest opening here t = .ok (body, left) →
      left.length < t.length := by
  fun_induction stringRest opening here t with
  | case1 => intro body left h; cases h
  | case2 => intro body left h; cases h
  | case3 =>
    intro body left h
    simp only [Except.ok.injEq, Prod.mk.injEq] at h
    rw [← h.2]; simp
  | case4 => intro body left h; cases h
  | case5 here rest esc rest' hesc hlt _ _ ih =>
    intro body left h
    cases hrec : stringRest opening (here.advance ('\\' :: esc)) rest' with
    | error e => rw [hrec] at h; cases h
    | ok r =>
      rw [hrec] at h
      obtain ⟨b, l⟩ := r
      cases h
      have := ih hrec
      simp only [List.length_cons]; omega
  | case6 here c rest _ _ _ ih =>
    intro body left h
    cases hrec : stringRest opening (here.after c) rest with
    | error e => rw [hrec] at h; cases h
    | ok r =>
      rw [hrec] at h
      obtain ⟨b, l⟩ := r
      cases h
      have := ih hrec
      simp only [List.length_cons]; omega

/-- A lexeme takes at least its first character from the text. -/
theorem lexeme_length {here : Place} {c : Char} {rest : List Char} {l : Lexeme}
    (h : lexeme here c rest = .ok l) : l.rest.length ≤ rest.length := by
  unfold lexeme at h
  split at h
  · unfold commentLexeme at h
    split at h
    · cases h; exact length_dropWhile_le _ _
    · cases h
  split at h
  · unfold rawLexeme rawRest? at h
    split at h
    · cases h
    · next heq =>
      split at heq
      · cases heq
      · next hd =>
        cases heq
        cases h
        have hlen := length_dropWhile_le (· ≠ '`') rest
        rw [hd] at hlen
        exact Nat.le_of_succ_le hlen
  split at h
  · unfold stringLexeme at h
    cases hr : stringRest here (here.after '"') rest with
    | error e => rw [hr] at h; cases h
    | ok r =>
      rw [hr] at h
      obtain ⟨b, left⟩ := r
      cases h
      exact Nat.le_of_lt (stringRest_length _ _ _ hr)
  split at h
  · cases h; exact length_dropWhile_le _ _
  split at h
  · cases h; exact length_dropWhile_le _ _
  split at h
  · cases h; exact Nat.le_refl _
  split at h
  · cases h; exact Nat.le_refl _
  · cases h

/-! ## Whole texts -/

/-- The tokens of a text and the place where it ends. -/
structure Scanned where
  tokens : List Token
  finish : Place
  deriving DecidableEq, Repr

/-- What the scanner knows between two tokens. -/
structure ScanState where
  place : Place
  /-- line breaks since the last token -/
  newlines : Nat
  /-- a line break ends a statement here -/
  due : Bool
  deriving DecidableEq, Repr

namespace ScanState

/-- The state before a text. -/
def initial : ScanState := ⟨.start, 0, false⟩

/-- The semicolon to insert at a place, if one is due. -/
def insertion (s : ScanState) (place : Place) : List Token :=
  if s.due then [⟨.semicolon true, place, 0⟩] else []

end ScanState

/-- A blank that separates tokens on a line. -/
def isSpace (c : Char) : Bool := c == ' ' || c == '\t' || c == '\r'

/-- The tokens of the rest of a text.  A semicolon due before a comment is inserted at the
comment's end, where the statement's line ends. -/
def scanFrom (s : ScanState) (t : List Char) : Except FormatError Scanned :=
  match t with
  | [] => .ok ⟨s.insertion s.place, s.place⟩
  | c :: rest =>
    if c = '\n' then do
      let more ← scanFrom ⟨s.place.after c, s.newlines + 1, false⟩ rest
      return { more with tokens := s.insertion s.place ++ more.tokens }
    else if isSpace c then scanFrom { s with place := s.place.after c } rest
    else
      match h : lexeme s.place c rest with
      | .error e => .error e
      | .ok l => do
        have : l.rest.length ≤ rest.length := lexeme_length h
        let next := s.place.advance l.source
        let more ← scanFrom ⟨next, 0, l.kind.endsStatement⟩ l.rest
        let before :=
          match l.kind with
          | .comment _ => s.insertion next
          | _ => []
        return { more with tokens := before ++ ⟨l.kind, s.place, s.newlines⟩ :: more.tokens }
termination_by t.length

/-- The tokens of a text. -/
def scan (t : List Char) : Except FormatError Scanned := scanFrom .initial t

end SchemaToGo.Go
