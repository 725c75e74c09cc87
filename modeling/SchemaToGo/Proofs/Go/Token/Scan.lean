import SchemaToGo.Go.Token.Scan
import SchemaToGo.Proofs.Go.Word
set_option autoImplicit false

/-!
# Scanning spelled tokens

A token's spelling is scanned as that token, unless what follows it continues it.  So a line that is
written token by token, with blanks where two tokens would run together, is scanned as these tokens:
`scanFrom_line`.
-/

namespace SchemaToGo.Go

theorem takeWhile_append_stop {p : Char → Bool} {t rest : List Char} (ht : ∀ c ∈ t, p c = true)
    (hrest : ∀ c ∈ rest.head?, p c = false) :
    (t ++ rest).takeWhile p = t ∧ (t ++ rest).dropWhile p = rest := by
  rw [List.takeWhile_append_of_pos ht, List.dropWhile_append_of_pos ht]
  cases rest with
  | nil => simp
  | cons c rest =>
    have hc : ¬ p c = true := by simp [hrest c rfl]
    rw [List.takeWhile_cons_of_neg hc, List.dropWhile_cons_of_neg hc, List.append_nil]
    exact ⟨rfl, rfl⟩

/-! ## Lexemes -/

namespace Kind

/-- The token's text is one that the scanner reads as this token. -/
def Spelled : Kind → Prop
  | word text => isWord text = true
  | int digits => digits ≠ [] ∧ ∀ c ∈ digits, c.isDigit = true
  | str literal =>
    (∃ body, literal = '`' :: body ++ ['`'] ∧ '`' ∉ body ∧ '\r' ∉ body) ∨
      ∃ body, literal = '"' :: body ∧
        ∀ opening here rest, stringRest opening here (body ++ rest) = .ok (body, rest)
  | comment text => ∃ body, text = '/' :: '/' :: body ∧ '\n' ∉ body
  | punct _ => True
  | semicolon inserted => inserted = false

/-- The next character, if there is one, does not continue the token. -/
def EndsBefore : Kind → Option Char → Prop
  | word _, next => ∀ c ∈ next, isWordChar c = false
  | int _, next => ∀ c ∈ next, c.isDigit = false
  | comment _, next => ∀ c ∈ next, c = '\n'
  | _, _ => True

end Kind

/-- A letter is none of the characters that the scanner looks for first. -/
theorem ne_of_isLetter {c x : Char} (hc : isLetter c = true) (hx : x ∈ separators) : c ≠ x := by
  rintro rfl
  rw [isLetter_of_separator hx] at hc
  cases hc

theorem lexeme_word {c : Char} {t rest : List Char} (hc : isLetter c = true)
    (ht : ∀ x ∈ t, isWordChar x = true) (hrest : ∀ x ∈ rest.head?, isWordChar x = false)
    (here : Place) :
    lexeme here c (t ++ rest) = .ok ⟨.word (c :: t), c :: t, rest⟩ := by
  have hdigit : ¬ c.isDigit = true := fun h => by
    rw [isLetter_of_isDigit h] at hc
    cases hc
  obtain ⟨htake, hdrop⟩ := takeWhile_append_stop ht hrest
  unfold lexeme
  rw [if_neg (ne_of_isLetter hc (by decide)), if_neg (ne_of_isLetter hc (by decide)),
    if_neg (ne_of_isLetter hc (by decide)), if_neg hdigit, if_pos hc, htake, hdrop]

theorem lexeme_int {c : Char} {t rest : List Char} (hc : c.isDigit = true)
    (ht : ∀ x ∈ t, x.isDigit = true) (hrest : ∀ x ∈ rest.head?, x.isDigit = false)
    (here : Place) :
    lexeme here c (t ++ rest) = .ok ⟨.int (c :: t), c :: t, rest⟩ := by
  have hne : ∀ x : Char, x.isDigit = false → c ≠ x := by
    rintro x hx rfl
    rw [hc] at hx
    cases hx
  obtain ⟨htake, hdrop⟩ := takeWhile_append_stop ht hrest
  unfold lexeme
  rw [if_neg (hne _ (by decide)), if_neg (hne _ (by decide)), if_neg (hne _ (by decide)),
    if_pos hc, htake, hdrop]

theorem lexeme_comment {body rest : List Char} (hbody : '\n' ∉ body)
    (hrest : ∀ x ∈ rest.head?, x = '\n') (here : Place) :
    lexeme here '/' ('/' :: body ++ rest) =
      .ok ⟨.comment ('/' :: '/' :: body), '/' :: '/' :: body, rest⟩ := by
  have hline : ∀ x ∈ '/' :: body, decide (x ≠ '\n') = true := by
    intro x hx
    refine decide_eq_true fun heq => ?_
    rcases List.mem_cons.mp hx with rfl | hx
    · exact absurd heq (by decide)
    · exact hbody (heq ▸ hx)
  obtain ⟨htake, hdrop⟩ := takeWhile_append_stop hline fun x hx => by simp [hrest x hx]
  unfold lexeme commentLexeme
  rw [if_pos rfl]
  dsimp only [List.cons_append] at htake hdrop ⊢
  rw [htake, hdrop]
  rfl

theorem lexeme_raw {body rest : List Char} (hquote : '`' ∉ body) (hreturn : '\r' ∉ body)
    (here : Place) :
    lexeme here '`' (body ++ ['`'] ++ rest) =
      .ok ⟨.str ('`' :: body ++ ['`']), '`' :: body ++ ['`'], rest⟩ := by
  have hbody : ∀ x ∈ body, decide (x ≠ '`') = true :=
    fun x hx => decide_eq_true fun heq => hquote (heq ▸ hx)
  have hstop : ∀ x ∈ (['`'] ++ rest).head?, decide (x ≠ '`') = false := by
    intro x hx
    cases hx
    rfl
  have hkeep : body.filter (fun x => decide (x ≠ '\r')) = body :=
    List.filter_eq_self.mpr fun x hx => decide_eq_true fun heq => hreturn (heq ▸ hx)
  obtain ⟨htake, hdrop⟩ := takeWhile_append_stop hbody hstop
  unfold lexeme rawLexeme rawRest?
  rw [if_neg (by decide), if_pos rfl, List.append_assoc, htake, hdrop]
  dsimp only [List.cons_append, List.nil_append]
  rw [hkeep]

theorem lexeme_string {body rest : List Char}
    (hbody : ∀ opening here rest, stringRest opening here (body ++ rest) = .ok (body, rest))
    (here : Place) :
    lexeme here '"' (body ++ rest) = .ok ⟨.str ('"' :: body), '"' :: body, rest⟩ := by
  unfold lexeme stringLexeme
  rw [if_neg (by decide), if_neg (by decide), if_pos rfl, hbody]
  rfl

/-- A spelled token is scanned as that token, unless what follows continues it. -/
theorem lexeme_spelling {k : Kind} (h : k.Spelled) {rest : List Char}
    (hrest : k.EndsBefore rest.head?) :
    ∃ c tail, k.spelling = c :: tail ∧ c ≠ '\n' ∧ isSpace c = false ∧
      ∀ here, lexeme here c (tail ++ rest) = .ok ⟨k, k.spelling, rest⟩ := by
  cases k with
  | word text =>
    obtain ⟨c, tail, rfl, hc, htail⟩ := isWord_iff.mp h
    refine ⟨c, tail, rfl, ne_of_isLetter hc (by decide), ?_, lexeme_word hc htail hrest⟩
    have hspaces : [' ', '\t', '\r'] ⊆ separators := by simp [separators]
    have hspace : ∀ x ∈ [' ', '\t', '\r'], c ≠ x := fun x hx => ne_of_isLetter hc (hspaces hx)
    simp [isSpace, hspace]
  | int digits =>
    obtain ⟨hne, hdigits⟩ := h
    obtain ⟨c, tail, rfl⟩ := List.exists_cons_of_ne_nil hne
    have hc := hdigits c List.mem_cons_self
    have hdiff : ∀ x : Char, x.isDigit = false → c ≠ x := by
      rintro x hx rfl
      rw [hc] at hx
      cases hx
    refine ⟨c, tail, rfl, hdiff _ (by decide), ?_,
      lexeme_int hc (fun x hx => hdigits x (List.mem_cons_of_mem _ hx)) hrest⟩
    simp [isSpace, hdiff ' ' (by decide), hdiff '\t' (by decide), hdiff '\r' (by decide)]
  | str literal =>
    rcases h with ⟨body, rfl, hquote, hreturn⟩ | ⟨body, rfl, hbody⟩
    · exact ⟨'`', body ++ ['`'], rfl, by decide, by decide, lexeme_raw hquote hreturn⟩
    · exact ⟨'"', body, rfl, by decide, by decide, lexeme_string hbody⟩
  | comment text =>
    obtain ⟨body, rfl, hbody⟩ := h
    exact ⟨'/', '/' :: body, rfl, by decide, by decide, lexeme_comment hbody hrest⟩
  | punct p =>
    refine ⟨p.char, [], rfl, ?_, ?_, fun here => ?_⟩
    · cases p <;> decide
    · cases p <;> decide
    · cases p <;> rfl
  | semicolon inserted =>
    cases h
    exact ⟨';', [], rfl, by decide, by decide, fun here => rfl⟩

/-! ## Pieces of a line -/

/-- A piece of a line: a blank or a token. -/
inductive Piece where
  | blank (c : Char)
  | token (k : Kind)

namespace Piece

/-- How the piece is written. -/
def text : Piece → List Char
  | blank c => [c]
  | token k => k.spelling

/-- The piece is written as the scanner reads it, with a given character after it. -/
def Fits : Piece → Option Char → Prop
  | blank c, _ => isSpace c = true
  | token k, next => k.Spelled ∧ k.EndsBefore next

end Piece

/-- Tokens found before the rest of a text. -/
def Scanned.after (before : List Token) (r : Except FormatError Scanned) :
    Except FormatError Scanned :=
  r.map fun m => { m with tokens := before ++ m.tokens }

theorem Scanned.after_nil (r : Except FormatError Scanned) : Scanned.after [] r = r := by
  cases r <;> rfl

theorem Scanned.after_after (ts us : List Token) (r : Except FormatError Scanned) :
    Scanned.after ts (Scanned.after us r) = Scanned.after (ts ++ us) r := by
  cases r with
  | error e => rfl
  | ok m => exact congrArg Except.ok (by simp)

namespace ScanState

/-- The state after a piece. -/
def pass (s : ScanState) : Piece → ScanState
  | .blank c => { s with place := s.place.after c }
  | .token k => ⟨s.place.advance k.spelling, 0, k.endsStatement⟩

/-- The tokens that a piece brings. -/
def emit (s : ScanState) : Piece → List Token
  | .blank _ => []
  | .token k =>
    let before :=
      match k with
      | .comment _ => s.insertion (s.place.advance k.spelling)
      | _ => []
    before ++ [⟨k, s.place, s.newlines⟩]

/-- The state after the pieces of a line. -/
def passAll (s : ScanState) (ps : List Piece) : ScanState := ps.foldl pass s

/-- The tokens that the pieces of a line bring. -/
def emitAll (s : ScanState) : List Piece → List Token
  | [] => []
  | p :: rest => s.emit p ++ (s.pass p).emitAll rest

/-- The state after a line break. -/
def endLine (s : ScanState) : ScanState := ⟨s.place.after '\n', s.newlines + 1, false⟩

end ScanState

theorem scanFrom_endLine (s : ScanState) (rest : List Char) :
    scanFrom s ('\n' :: rest) = Scanned.after (s.insertion s.place) (scanFrom s.endLine rest) := by
  rw [scanFrom, if_pos rfl]
  unfold ScanState.endLine
  cases scanFrom ⟨s.place.after '\n', s.newlines + 1, false⟩ rest <;> rfl

/-- A piece that fits is scanned as what it stands for. -/
theorem scanFrom_piece (s : ScanState) {p : Piece} {rest : List Char} (h : p.Fits rest.head?) :
    scanFrom s (p.text ++ rest) = Scanned.after (s.emit p) (scanFrom (s.pass p) rest) := by
  cases p with
  | blank c =>
    have hspace : isSpace c = true := h
    have hc : c ≠ '\n' := by
      rintro rfl
      exact absurd hspace (by decide)
    show scanFrom s (c :: rest) = _
    rw [scanFrom, if_neg hc, if_pos hspace]
    exact (Scanned.after_nil _).symm
  | token k =>
    obtain ⟨c, tail, hspelling, hc, hspace, hlexeme⟩ := lexeme_spelling h.1 h.2
    have htext : (Piece.token k).text ++ rest = c :: (tail ++ rest) := by
      show k.spelling ++ rest = _
      rw [hspelling, List.cons_append]
    rw [htext, scanFrom, if_neg hc, if_neg (by simp [hspace])]
    split
    · next e heq =>
      rw [hlexeme] at heq
      cases heq
    · next l heq =>
      rw [hlexeme] at heq
      cases heq
      unfold ScanState.pass ScanState.emit
      dsimp only
      cases scanFrom ⟨s.place.advance k.spelling, 0, k.endsStatement⟩ rest with
      | error e => rfl
      | ok m => cases k <;> exact congrArg Except.ok (by simp)

/-- The text of the pieces of a line. -/
def lineText (ps : List Piece) : List Char := ps.flatMap Piece.text

/-- Every piece of a line fits what stands after it on the line. -/
def LineFits : List Piece → Prop
  | [] => True
  | p :: rest => p.Fits (lineText rest ++ ['\n']).head? ∧ LineFits rest

/-- A line is scanned as its pieces, and a semicolon is inserted at its end if one is due. -/
theorem scanFrom_line (s : ScanState) {ps : List Piece} (h : LineFits ps) (rest : List Char) :
    scanFrom s (lineText ps ++ '\n' :: rest) =
      Scanned.after (s.emitAll ps ++ (s.passAll ps).insertion (s.passAll ps).place)
        (scanFrom (s.passAll ps).endLine rest) := by
  induction ps generalizing s with
  | nil => exact scanFrom_endLine s rest
  | cons p ps ih =>
    obtain ⟨hp, hps⟩ := h
    have htext : lineText (p :: ps) ++ '\n' :: rest = p.text ++ (lineText ps ++ '\n' :: rest) := by
      unfold lineText
      rw [List.flatMap_cons, List.append_assoc]
    have hnext : (lineText ps ++ '\n' :: rest).head? = (lineText ps ++ ['\n']).head? := by
      cases lineText ps <;> rfl
    rw [htext, scanFrom_piece s (hnext ▸ hp), ih (s.pass p) hps, Scanned.after_after,
      ← List.append_assoc]
    rfl

/-! ## Lines of a text -/

namespace ScanState

/-- The tokens of a line, with the semicolon at its end. -/
def emitLine (s : ScanState) (ps : List Piece) : List Token :=
  s.emitAll ps ++ (s.passAll ps).insertion (s.passAll ps).place

/-- The state after a line and its end. -/
def passLine (s : ScanState) (ps : List Piece) : ScanState := (s.passAll ps).endLine

/-- The tokens of lines. -/
def emitLines (s : ScanState) : List (List Piece) → List Token
  | [] => []
  | ps :: rest => s.emitLine ps ++ (s.passLine ps).emitLines rest

/-- The state after lines. -/
def passLines (s : ScanState) (lines : List (List Piece)) : ScanState := lines.foldl passLine s

theorem emitLines_append (s : ScanState) (lines more : List (List Piece)) :
    s.emitLines (lines ++ more) = s.emitLines lines ++ (s.passLines lines).emitLines more := by
  induction lines generalizing s with
  | nil => rfl
  | cons ps rest ih =>
    show s.emitLine ps ++ (s.passLine ps).emitLines (rest ++ more) = _
    rw [ih, ← List.append_assoc]
    rfl

theorem passLines_append (s : ScanState) (lines more : List (List Piece)) :
    s.passLines (lines ++ more) = (s.passLines lines).passLines more :=
  List.foldl_append

end ScanState

/-- Lines that are written piece by piece are scanned as their pieces. -/
theorem scanFrom_lines (s : ScanState) (hs : s.due = false) {lines : List (List Piece)}
    (h : ∀ ps ∈ lines, LineFits ps) :
    scanFrom s (lines.flatMap fun ps => lineText ps ++ ['\n']) =
      .ok ⟨s.emitLines lines, (s.passLines lines).place⟩ := by
  induction lines generalizing s with
  | nil =>
    rw [List.flatMap_nil, scanFrom]
    unfold ScanState.insertion
    rw [hs]
    rfl
  | cons ps rest ih =>
    rw [List.flatMap_cons, List.append_assoc, List.singleton_append,
      scanFrom_line s (h ps List.mem_cons_self)]
    have hrest := ih (s.passLine ps) rfl fun ps' hps' => h ps' (List.mem_cons_of_mem _ hps')
    rw [show (s.passAll ps).endLine = s.passLine ps from rfl, hrest]
    rfl

/-! ## Tokens of a line -/

namespace Piece

/-- The token that a piece is, if it is one. -/
def kind? : Piece → Option Kind
  | blank _ => none
  | token k => some k

/-- A piece other than a comment. -/
def IsCode : Piece → Prop
  | token (.comment _) => False
  | _ => True

end Piece

/-- The tokens of a line. -/
def lineKinds (ps : List Piece) : List Kind := ps.filterMap Piece.kind?

namespace ScanState

theorem emit_code (s : ScanState) {k : Kind} (h : (Piece.token k).IsCode) :
    s.emit (.token k) = [⟨k, s.place, s.newlines⟩] := by
  cases k with
  | comment text => exact absurd h id
  | _ => rfl

/-- The tokens of a line without comments are those that are written. -/
theorem map_kind_emitAll (s : ScanState) {ps : List Piece} (h : ∀ p ∈ ps, p.IsCode) :
    (s.emitAll ps).map Token.kind = lineKinds ps := by
  induction ps generalizing s with
  | nil => rfl
  | cons p rest ih =>
    have hrest := ih (s.pass p) fun q hq => h q (List.mem_cons_of_mem _ hq)
    unfold emitAll
    rw [List.map_append, hrest]
    cases p with
    | blank c => rfl
    | token k =>
      rw [emit_code s (h _ List.mem_cons_self)]
      rfl

/-- The first token of a line knows the line breaks before the line. -/
theorem newlines_of_head?_emitAll (s : ScanState) {ps : List Piece} (h : ∀ p ∈ ps, p.IsCode) :
    ∀ t ∈ (s.emitAll ps).head?, t.newlines = s.newlines := by
  induction ps generalizing s with
  | nil => exact nofun
  | cons p rest ih =>
    cases p with
    | blank c => exact ih (s.pass (.blank c)) fun q hq => h q (List.mem_cons_of_mem _ hq)
    | token k =>
      unfold emitAll
      rw [emit_code s (h _ List.mem_cons_self)]
      intro t ht
      cases ht
      rfl

/-- A semicolon is due after a line if its last token can end a statement. -/
theorem due_passAll (s : ScanState) (ps : List Piece) :
    (s.passAll ps).due = ((lineKinds ps).getLast?.map Kind.endsStatement).getD s.due := by
  induction ps generalizing s with
  | nil => rfl
  | cons p rest ih =>
    show ((s.pass p).passAll rest).due = _
    rw [ih]
    cases p with
    | blank c => rfl
    | token k =>
      show _ = Option.getD (Option.map _ (k :: lineKinds rest).getLast?) _
      rw [List.getLast?_cons]
      cases (lineKinds rest).getLast? <;> rfl

/-- The line breaks before what follows a line. -/
theorem newlines_passAll (s : ScanState) (ps : List Piece) :
    (s.passAll ps).newlines = if (lineKinds ps).isEmpty then s.newlines else 0 := by
  induction ps generalizing s with
  | nil => rfl
  | cons p rest ih =>
    show ((s.pass p).passAll rest).newlines = _
    rw [ih]
    cases p with
    | blank c => rfl
    | token k =>
      show (if _ then 0 else 0) = (if (k :: lineKinds rest).isEmpty then s.newlines else 0)
      simp

end ScanState

namespace ScanState

theorem emitLine_nil {s : ScanState} (hs : s.due = false) : s.emitLine [] = [] := by
  unfold emitLine insertion
  rw [show (s.passAll []).due = s.due from rfl, hs]
  rfl

/-- A comment on a line of its own is one token. -/
theorem emitLine_comment {s : ScanState} (hs : s.due = false) (text : List Char) :
    s.emitLine [.token (.comment text)] = [⟨.comment text, s.place, s.newlines⟩] := by
  have hbefore : s.insertion (s.place.advance text) = [] := by
    unfold insertion
    rw [hs]
    rfl
  show (s.insertion (s.place.advance text) ++ [_]) ++ [] ++ [] = _
  rw [hbefore]
  rfl

/-- A line without comments brings the tokens that are written and a semicolon, if one is due. -/
theorem exists_emitLine (s : ScanState) {ps : List Piece} (hps : ∀ p ∈ ps, p.IsCode) {k : Kind}
    {ks : List Kind} (hkinds : lineKinds ps = k :: ks) {ends : Bool}
    (hends : (k :: ks).getLast?.map Kind.endsStatement = some ends) :
    ∃ t ts, s.emitLine ps = t :: ts ∧ t.kind = k ∧ t.newlines = s.newlines ∧
      ts.map Token.kind = ks ++ if ends then [.semicolon true] else [] := by
  have hall := map_kind_emitAll s hps
  rw [hkinds] at hall
  obtain ⟨t, ts, hemit, ht, hts⟩ := List.map_eq_cons_iff.mp hall
  have hnewlines := newlines_of_head?_emitAll s hps t (by rw [hemit]; rfl)
  have hdue : (s.passAll ps).due = ends := by
    rw [due_passAll, hkinds, hends]
    rfl
  refine ⟨t, ts ++ (s.passAll ps).insertion (s.passAll ps).place, ?_, ht, hnewlines, ?_⟩
  · unfold emitLine
    rw [hemit]
    rfl
  · rw [List.map_append, hts]
    unfold insertion
    rw [hdue]
    cases ends <;> rfl

/-- After a line that is not empty there is one line break so far. -/
theorem newlines_passLine (s : ScanState) {ps : List Piece} (h : lineKinds ps ≠ []) :
    (s.passLine ps).newlines = 1 := by
  show (s.passAll ps).newlines + 1 = 1
  rw [newlines_passAll, if_neg (by simpa using h)]

end ScanState

/-! ## Line numbers -/

theorem Place.line_le_advance (p : Place) (t : List Char) : p.line ≤ (p.advance t).line := by
  induction t generalizing p with
  | nil => exact Nat.le_refl _
  | cons c rest ih =>
    refine Nat.le_trans ?_ (ih (p.after c))
    unfold after
    split
    · exact Nat.le_succ _
    · exact Nat.le_refl _

namespace ScanState

theorem line_le_pass (s : ScanState) (p : Piece) : s.place.line ≤ (s.pass p).place.line := by
  cases p with
  | blank c => exact s.place.line_le_advance [c]
  | token k => exact s.place.line_le_advance k.spelling

theorem line_le_passAll (s : ScanState) (ps : List Piece) :
    s.place.line ≤ (s.passAll ps).place.line := by
  induction ps generalizing s with
  | nil => exact Nat.le_refl _
  | cons p rest ih => exact Nat.le_trans (s.line_le_pass p) (ih (s.pass p))

theorem line_lt_passLine (s : ScanState) (ps : List Piece) :
    s.place.line < (s.passLine ps).place.line :=
  Nat.lt_succ_of_le (s.line_le_passAll ps)

theorem line_le_passLines (s : ScanState) (lines : List (List Piece)) :
    s.place.line ≤ (s.passLines lines).place.line := by
  induction lines generalizing s with
  | nil => exact Nat.le_refl _
  | cons ps rest ih =>
    exact Nat.le_trans (Nat.le_of_lt (s.line_lt_passLine ps)) (ih (s.passLine ps))

/-- The tokens of a line stand between its start and its end. -/
theorem line_of_mem_emitAll (s : ScanState) {ps : List Piece} (h : ∀ p ∈ ps, p.IsCode) :
    ∀ t ∈ s.emitAll ps, s.place.line ≤ t.place.line ∧ t.place.line ≤ (s.passAll ps).place.line := by
  induction ps generalizing s with
  | nil => exact nofun
  | cons p rest ih =>
    have hrest : ∀ t ∈ (s.pass p).emitAll rest, s.place.line ≤ t.place.line ∧
        t.place.line ≤ (s.passAll (p :: rest)).place.line := by
      intro t ht
      obtain ⟨hlow, hhigh⟩ := ih (s.pass p) (fun q hq => h q (List.mem_cons_of_mem _ hq)) t ht
      exact ⟨Nat.le_trans (s.line_le_pass p) hlow, hhigh⟩
    intro t ht
    rcases List.mem_append.mp ht with ht | ht
    · cases p with
      | blank c => cases ht
      | token k =>
        rw [emit_code s (h _ List.mem_cons_self)] at ht
        rw [List.mem_singleton.mp ht]
        exact ⟨Nat.le_refl _, s.line_le_passAll _⟩
    · exact hrest t ht

theorem line_of_mem_emitLine (s : ScanState) {ps : List Piece} (h : ∀ p ∈ ps, p.IsCode) :
    ∀ t ∈ s.emitLine ps,
      s.place.line ≤ t.place.line ∧ t.place.line < (s.passLine ps).place.line := by
  intro t ht
  rcases List.mem_append.mp ht with ht | ht
  · obtain ⟨hlow, hhigh⟩ := s.line_of_mem_emitAll h t ht
    exact ⟨hlow, Nat.lt_succ_of_le hhigh⟩
  · unfold insertion at ht
    split at ht
    · rw [List.mem_singleton.mp ht]
      exact ⟨s.line_le_passAll ps, Nat.lt_succ_self _⟩
    · cases ht

end ScanState

end SchemaToGo.Go
