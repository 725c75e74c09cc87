import SchemaToGo.Proofs.Go.File.Drawing
import SchemaToGo.Proofs.Go.Format
set_option autoImplicit false

/-!
# Lines of a formatted text

The lines of a formatted text are indented by the bodies that are open, end in ink, and keep blank
lines to where they are allowed: `exists_canonicalLines_of_format`.

What is written by the rules of the pen is split into lines, with the number of open bodies and the
line above known at every line: `splits_of_draws`.

Normative source: SPEC_FULL.md section 4.4, on indentation, trailing blanks and blank lines.
-/

namespace SchemaToGo.Go

/-! ## Lines -/

/-- A line of a text and its tokens. -/
structure TextLine where
  text : List Char
  kinds : List Kind

namespace TextLine

/-- The line opens a body: it ends in an opening brace. -/
def opens (l : TextLine) : Bool := l.kinds.getLast? == some (.punct .openBrace)

/-- The line closes a body: it starts with a closing brace. -/
def closes (l : TextLine) : Bool := l.kinds.head? == some (.punct .closeBrace)

/-- The text of lines. -/
def textOf (lines : List TextLine) : List Char := lines.flatMap fun l => l.text ++ ['\n']

/-- The tokens of lines, with the line breaks between them. -/
def marksOf (lines : List TextLine) : List Mark :=
  lines.flatMap fun l => l.kinds.map .token ++ [.feed]

/-- The bodies that lines leave open. -/
def openBodies (lines : List TextLine) : Nat :=
  (lines.flatMap kinds).count (.punct .openBrace) - (lines.flatMap kinds).count (.punct .closeBrace)

end TextLine

/-- Among neighbours, an opening brace stands exactly before a closing one. -/
def Kind.Neighbours (k l : Kind) : Prop := k = .punct .openBrace ↔ l = .punct .closeBrace

/-- Two lines, one below the other: of blank lines there is one at most, none below a line that
opens a body and none above a line that closes one. -/
structure TextLine.Above (l m : TextLine) : Prop where
  blank : l.text = [] → m.text ≠ []
  opens : l.opens = true → m.text ≠ []
  closes : m.closes = true → l.text ≠ []

/-- The lines of a canonical layout. -/
structure CanonicalLines (lines : List TextLine) : Prop where
  ne_nil : lines ≠ []
  line : ∀ l ∈ lines, '\n' ∉ l.text
  trimmed : ∀ l ∈ lines, l.text = [] ∨ Text.EndsInk l.text
  /-- the text starts with a line that is not blank -/
  first : ∀ l ∈ lines.head?, l.text ≠ []
  /-- the text ends with a line that is not blank -/
  last : ∀ l ∈ lines.getLast?, l.text ≠ []
  spaced : lines.IsChain TextLine.Above
  /-- an opening brace ends its line or is closed at once, and a closing brace starts its line or
  closes at once -/
  braces : ∀ l ∈ lines, l.kinds.IsChain Kind.Neighbours
  /-- a line starts with a tab for every open body; one that closes a body stands outside of it -/
  indented : ∀ (before : List TextLine) (l : TextLine) (after : List TextLine),
    lines = before ++ l :: after → l.text ≠ [] → ∃ c rest,
      l.text = tabs (if l.closes then TextLine.openBodies before - 1
        else TextLine.openBodies before) ++ c :: rest ∧ Text.isBlank c = false

/-! ## The rest of a line -/

/-- What is written from behind a token to the end of the line. -/
structure LineRest (depth : Nat) (ink opened : Bool) (t : List Char) (ks : List Kind)
    (depth' : Nat) (opened' : Bool) : Prop where
  line : '\n' ∉ t
  ends : t = [] ∧ ink = true ∨ Text.EndsInk t
  braces : ks.IsChain Kind.Neighbours
  next : ∀ k ∈ ks.head?, (opened = true ↔ k = .punct .closeBrace)
  balance : depth' + ks.count (.punct .closeBrace) = depth + ks.count (.punct .openBrace)
  last : opened' = match ks.getLast? with
    | none => opened
    | some k => k == .punct .openBrace

/-- A line with text, with the bodies open before and behind it. -/
structure InkedLine (depth : Nat) (above : Above) (l : TextLine) (depth' : Nat) : Prop where
  line : '\n' ∉ l.text
  ends : Text.EndsInk l.text
  braces : l.kinds.IsChain Kind.Neighbours
  balance : depth' + l.kinds.count (.punct .closeBrace) =
    depth + l.kinds.count (.punct .openBrace)
  closes : l.closes = true → above ≠ .blank
  indented : ∃ c rest, l.text = tabs (if l.closes then depth - 1 else depth) ++ c :: rest ∧
    Text.isBlank c = false

/-- Lines with the number of open bodies and what stands above, before the lines and behind
them. -/
inductive Lines : Nat → Above → List TextLine → Nat → Above → Prop
  | nil {depth : Nat} {above : Above} : Lines depth above [] depth above
  | blank {depth depth' : Nat} {above' : Above} {lines : List TextLine} :
      Lines depth .blank lines depth' above' → Lines depth .plain (⟨[], []⟩ :: lines) depth' above'
  | inked {depth depth' depth'' : Nat} {above above'' : Above} {l : TextLine}
      {lines : List TextLine} : InkedLine depth above l depth' →
      Lines depth' (if l.opens then .opener else .plain) lines depth'' above'' →
      Lines depth above (l :: lines) depth'' above''

namespace LineRest

variable {depth depth' depth₁ : Nat} {ink opened opened' : Bool} {t u : List Char} {k : Kind}
  {ks : List Kind}

/-- At the end of a line. -/
theorem feed : LineRest depth true opened [] [] depth opened :=
  ⟨nofun, .inl ⟨rfl, rfl⟩, .nil, nofun, rfl, rfl⟩

theorem space (h : LineRest depth false false t ks depth' opened') :
    LineRest depth ink false (' ' :: t) ks depth' opened' := by
  have hink : Text.EndsInk t := h.ends.resolve_left fun hnil => nomatch hnil.2
  refine ⟨?_, .inr (hink.append [' ']), h.braces, h.next, h.balance, h.last⟩
  simpa using h.line

/-- A token comes before the rest. -/
theorem token (h : LineRest depth₁ true (k == .punct .openBrace) t ks depth' opened')
    (hink : Text.EndsInk u) (hline : '\n' ∉ u) (hk : opened = true ↔ k = .punct .closeBrace)
    (hdepth : depth₁ + [k].count (.punct .closeBrace) = depth + [k].count (.punct .openBrace)) :
    LineRest depth ink opened (u ++ t) (k :: ks) depth' opened' := by
  refine ⟨?_, .inr ?_, ?_, ?_, ?_, ?_⟩
  · rw [List.mem_append, not_or]
    exact ⟨hline, h.line⟩
  · rcases h.ends with ⟨rfl, _⟩ | hends
    · rw [List.append_nil]
      exact hink
    · exact hends.append u
  · refine h.braces.cons fun l hl => ?_
    rw [Kind.Neighbours, ← h.next l hl, beq_iff_eq]
  · intro l hl
    cases hl
    exact hk
  · have hbalance := h.balance
    have hcount : ∀ l : Kind, (k :: ks).count l = [k].count l + ks.count l := by
      intro l
      rw [← List.count_append]
      rfl
    rw [hcount, hcount]
    omega
  · rw [h.last, List.getLast?_cons]
    cases ks.getLast? <;> rfl

/-- A line that is a token and its rest. -/
theorem inkedLine {above : Above} {c : Char}
    (h : LineRest depth ink opened (c :: t) (k :: ks) depth' opened')
    (hc : Text.isBlank c = false) {n : Nat}
    (hn : n = if k == .punct .closeBrace then depth - 1 else depth)
    (habove : k = .punct .closeBrace → above ≠ .blank) :
    InkedLine depth above ⟨tabs n ++ c :: t, k :: ks⟩ depth' := by
  have hcloses : TextLine.closes ⟨tabs n ++ c :: t, k :: ks⟩ = (k == .punct .closeBrace) := rfl
  refine ⟨?_, ?_, h.braces, h.balance, fun hclose => habove ?_, c, t, ?_, hc⟩
  · rw [List.mem_append, not_or]
    exact ⟨fun hmem => absurd (List.eq_of_mem_replicate hmem) (by decide), h.line⟩
  · exact (h.ends.resolve_left fun hnil => nomatch hnil.1).append _
  · exact beq_iff_eq.mp (hcloses ▸ hclose)
  · rw [hcloses, hn]

theorem opens_eq (h : LineRest depth ink (k == .punct .closeBrace) t (k :: ks) depth' opened')
    (u : List Char) : TextLine.opens ⟨u, k :: ks⟩ = opened' := by
  rw [h.last, TextLine.opens, List.getLast?_cons]
  rfl

end LineRest

/-! ## Splitting into lines -/

/-- What is written from a pen to the end of a text, in lines. -/
def Pen.Splits (t : List Char) (ms : List Mark) (depth' : Nat) (above' : Above) : Pen → Prop
  | .margin depth above n => ∃ lines, tabs n ++ t = TextLine.textOf lines ∧
      ms = TextLine.marksOf lines ∧ Lines depth above lines depth' above'
  | .inside depth ink opened => ∃ u ks depth₁ opened₁ lines,
      t = u ++ '\n' :: TextLine.textOf lines ∧
      ms = ks.map .token ++ .feed :: TextLine.marksOf lines ∧
      LineRest depth ink opened u ks depth₁ opened₁ ∧
      Lines depth₁ (if opened₁ then .opener else .plain) lines depth' above'

theorem TextLine.textOf_cons (l : TextLine) (lines : List TextLine) :
    textOf (l :: lines) = l.text ++ '\n' :: textOf lines := by
  simp [textOf]

theorem TextLine.marksOf_cons (l : TextLine) (lines : List TextLine) :
    marksOf (l :: lines) = l.kinds.map .token ++ .feed :: marksOf lines := by
  simp [marksOf]

/-- A line is what is written on it from its first token on. -/
theorem splits_margin {depth depth₁ depth' n : Nat} {above above' : Above}
    {opened₁ : Bool} {k : Kind} {c : Char} {u : List Char} {ks : List Kind}
    {lines : List TextLine} (hc : Text.isBlank c = false)
    (hn : n = if k == .punct .closeBrace then depth - 1 else depth)
    (habove : k = .punct .closeBrace → above ≠ .blank)
    (h : LineRest depth true (k == .punct .closeBrace) (c :: u) (k :: ks) depth₁ opened₁)
    (hlines : Lines depth₁ (if opened₁ then .opener else .plain) lines depth' above') :
    Pen.Splits (c :: u ++ '\n' :: TextLine.textOf lines)
      ((k :: ks).map .token ++ .feed :: TextLine.marksOf lines) depth' above'
      (.margin depth above n) := by
  refine ⟨⟨tabs n ++ c :: u, k :: ks⟩ :: lines, ?_, ?_, .inked (h.inkedLine hc hn habove) ?_⟩
  · rw [TextLine.textOf_cons, List.append_assoc]
  · rw [TextLine.marksOf_cons]
  · rw [h.opens_eq]
    exact hlines

/-- What is written by the rules up to the end of a line is split into lines. -/
theorem splits_of_draws {p : Pen} {t : List Char} {ms : List Mark} {depth' : Nat} {above' : Above}
    (h : Draws p t ms (.margin depth' above' 0)) : p.Splits t ms depth' above' := by
  generalize hq : Pen.margin depth' above' 0 = q at h
  induction h with
  | done =>
    subst hq
    exact ⟨[], rfl, rfl, .nil⟩
  | @tab depth n above t ms q _ ih =>
    obtain ⟨lines, htext, hmarks, hlines⟩ := ih hq
    refine ⟨lines, ?_, hmarks, hlines⟩
    have htabs : tabs (n + 1) = tabs n ++ ['\t'] := List.replicate_succ'
    rw [htabs, List.append_assoc] at htext
    exact htext
  | space _ ih =>
    obtain ⟨u, ks, depth₁, opened₁, lines, rfl, rfl, hrest, hlines⟩ := ih hq
    exact ⟨' ' :: u, ks, depth₁, opened₁, lines, rfl, rfl, hrest.space, hlines⟩
  | @token depth p q k t ms hp hk hbrace _ ih =>
    obtain ⟨u, ks, depth₁, opened₁, lines, rfl, rfl, hrest, hlines⟩ := ih hq
    have hopen : (k == .punct .openBrace) = false :=
      beq_eq_false_iff_ne.mpr fun h => hbrace (.inl h)
    have hclose : (k == .punct .closeBrace) = false :=
      beq_eq_false_iff_ne.mpr fun h => hbrace (.inr h)
    have hadd : ∀ ink, LineRest depth ink false (k.spelling ++ u) (k :: ks) depth₁ opened₁ := by
      intro ink
      refine LineRest.token (hopen.symm ▸ hrest) hk.ends hk.line ?_ ?_
      · exact ⟨nofun, fun h => absurd (.inr h) hbrace⟩
      · have hcount : ∀ l, k ≠ l → [k].count l = 0 := by
          intro l hl
          rw [List.count_eq_zero, List.mem_singleton]
          exact hl.symm
        rw [hcount _ fun h => hbrace (.inl h), hcount _ fun h => hbrace (.inr h)]
    cases hp with
    | inside ink =>
      refine ⟨k.spelling ++ u, k :: ks, depth₁, opened₁, lines, ?_, rfl, hadd ink, hlines⟩
      rw [List.append_assoc]
    | margin above =>
      obtain ⟨c, rest, hspelling⟩ := List.exists_cons_of_ne_nil hk.ends.ne_nil
      have hc := hk.starts c (by rw [hspelling]; rfl)
      have hline := hadd true
      rw [hspelling, List.cons_append] at hline
      rw [hspelling, ← List.append_assoc]
      refine splits_margin hc ?_ (fun h => absurd (.inr h) hbrace) (hclose.symm ▸ hline) hlines
      rw [hclose]
      rfl
  | opens _ ih =>
    obtain ⟨u, ks, depth₁, opened₁, lines, rfl, rfl, hrest, hlines⟩ := ih hq
    refine ⟨'\x7b' :: u, _ :: ks, depth₁, opened₁, lines, rfl, rfl, ?_, hlines⟩
    exact LineRest.token (u := ['\x7b']) hrest (Text.endsInk_singleton (by decide)) (by decide)
      (by decide) rfl
  | closes _ ih =>
    obtain ⟨u, ks, depth₁, opened₁, lines, rfl, rfl, hrest, hlines⟩ := ih hq
    refine ⟨'\x7d' :: u, _ :: ks, depth₁, opened₁, lines, rfl, rfl, ?_, hlines⟩
    exact LineRest.token (u := ['\x7d']) hrest (Text.endsInk_singleton (by decide)) (by decide)
      (by decide) rfl
  | @closesBody depth above t ms q habove _ ih =>
    obtain ⟨u, ks, depth₁, opened₁, lines, rfl, rfl, hrest, hlines⟩ := ih hq
    have hadd : LineRest (depth + 1) true true ('\x7d' :: u) (.punct .closeBrace :: ks) depth₁
        opened₁ := LineRest.token (u := ['\x7d']) hrest (Text.endsInk_singleton (by decide))
        (by decide) (by decide) rfl
    exact splits_margin (by decide) rfl (fun _ => habove) hadd hlines
  | feed _ ih =>
    obtain ⟨lines, htext, rfl, hlines⟩ := ih hq
    refine ⟨[], [], _, _, lines, ?_, rfl, .feed, hlines⟩
    exact congrArg ('\n' :: ·) htext
  | blankLine _ ih =>
    obtain ⟨lines, htext, rfl, hlines⟩ := ih hq
    refine ⟨⟨[], []⟩ :: lines, ?_, ?_, .blank hlines⟩
    · rw [TextLine.textOf_cons]
      exact congrArg ('\n' :: ·) htext
    · rw [TextLine.marksOf_cons]
      rfl

/-! ## What holds of the lines -/

namespace Lines

variable {depth depth' : Nat} {above above' : Above} {lines more : List TextLine}
  {l : TextLine}

theorem split (h : Lines depth above (lines ++ more) depth' above') :
    ∃ depth₁ above₁, Lines depth above lines depth₁ above₁ ∧
      Lines depth₁ above₁ more depth' above' := by
  induction lines generalizing depth above with
  | nil => exact ⟨depth, above, .nil, h⟩
  | cons l lines ih =>
    cases h with
    | blank h =>
      obtain ⟨depth₁, above₁, hlines, hmore⟩ := ih h
      exact ⟨depth₁, above₁, .blank hlines, hmore⟩
    | inked hl h =>
      obtain ⟨depth₁, above₁, hlines, hmore⟩ := ih h
      exact ⟨depth₁, above₁, .inked hl hlines, hmore⟩

/-- A line with text is indented by the bodies that are open. -/
theorem inkedLine (h : Lines depth above (l :: lines) depth' above') (hl : l.text ≠ []) :
    ∃ depth₁, InkedLine depth above l depth₁ := by
  cases h with
  | blank => exact absurd rfl hl
  | inked hl => exact ⟨_, hl⟩

/-- Every line is blank or has text. -/
theorem cases_line (h : Lines depth above lines depth' above') (hl : l ∈ lines) :
    l = ⟨[], []⟩ ∨ ∃ depth above depth', InkedLine depth above l depth' := by
  induction h with
  | nil => cases hl
  | blank _ ih =>
    rcases List.mem_cons.mp hl with rfl | hl
    · exact .inl rfl
    · exact ih hl
  | inked hline _ ih =>
    rcases List.mem_cons.mp hl with rfl | hl
    · exact .inr ⟨_, _, _, hline⟩
    · exact ih hl

/-- The open bodies are those that the lines leave open. -/
theorem balance (h : Lines depth above lines depth' above') :
    depth' + (lines.flatMap TextLine.kinds).count (.punct .closeBrace) =
      depth + (lines.flatMap TextLine.kinds).count (.punct .openBrace) := by
  induction h with
  | nil => rfl
  | blank _ ih => exact ih
  | inked hl _ ih =>
    have hbalance := hl.balance
    rw [List.flatMap_cons, List.count_append, List.count_append]
    omega

theorem openBodies_eq (h : Lines 0 above lines depth' above') :
    TextLine.openBodies lines = depth' := by
  have hbalance := h.balance
  unfold TextLine.openBodies
  omega

/-- Below a line of text that opens nothing anything may stand, below the others a line of text. -/
theorem text_ne_nil (h : Lines depth above (l :: lines) depth' above') (habove : above ≠ .plain) :
    l.text ≠ [] := by
  cases h with
  | blank => exact absurd rfl habove
  | inked hl => exact hl.ends.ne_nil

theorem closes_ne (h : Lines depth above (l :: lines) depth' above') (hl : l.closes = true) :
    above ≠ .blank := by
  cases h with
  | blank => nofun
  | inked hline => exact hline.closes hl

theorem isChain (h : Lines depth above lines depth' above') : lines.IsChain TextLine.Above := by
  induction h with
  | nil => exact .nil
  | blank hrest ih =>
    refine ih.cons fun m hm => ?_
    obtain ⟨rest, rfl⟩ := List.head?_eq_some_iff.mp hm
    have htext := hrest.text_ne_nil (by decide)
    exact ⟨fun _ => htext, nofun, fun hcloses => absurd rfl (hrest.closes_ne hcloses)⟩
  | @inked _ _ _ _ _ l _ hl hrest ih =>
    refine ih.cons fun m hm => ?_
    obtain ⟨rest, rfl⟩ := List.head?_eq_some_iff.mp hm
    refine ⟨fun hnil => absurd hnil hl.ends.ne_nil, fun hopens => ?_, fun _ => hl.ends.ne_nil⟩
    rw [hopens] at hrest
    exact hrest.text_ne_nil (by decide)

/-- The lines of a text, from its start to its end. -/
theorem canonicalLines (h : Lines 0 .top lines depth' .plain) : CanonicalLines lines := by
  refine ⟨?_, fun l hl => ?_, fun l hl => ?_, fun l hl => ?_, fun l hl => ?_, h.isChain,
    fun l hl => ?_, ?_⟩
  · rintro rfl
    cases h
  · rcases h.cases_line hl with rfl | ⟨_, _, _, hline⟩
    · exact nofun
    · exact hline.line
  · rcases h.cases_line hl with rfl | ⟨_, _, _, hline⟩
    · exact .inl rfl
    · exact .inr hline.ends
  · obtain ⟨rest, rfl⟩ := List.head?_eq_some_iff.mp hl
    exact h.text_ne_nil (by decide)
  · obtain ⟨front, rfl⟩ := List.getLast?_eq_some_iff.mp hl
    obtain ⟨_, _, _, hlast⟩ := h.split
    cases hlast with
    | blank h => cases h
    | inked hl => exact hl.ends.ne_nil
  · rcases h.cases_line hl with rfl | ⟨_, _, _, hline⟩
    · exact .nil
    · exact hline.braces
  · rintro before l after rfl htext
    obtain ⟨_, _, hbefore, hrest⟩ := h.split
    obtain ⟨_, hline⟩ := hrest.inkedLine htext
    rw [hbefore.openBodies_eq]
    exact hline.indented

end Lines

/-! ## Tokens on one line -/

/-- An escape does not reach over the end of a line. -/
theorem feed_not_mem_of_escape {t esc rest : List Char} (h : escape? t = some (esc, rest)) :
    '\n' ∉ esc := by
  cases t with
  | nil => cases h
  | cons c tail =>
    cases hshape : escapeShape? c with
    | none => simp [escape?, hshape] at h
    | some shape =>
      obtain ⟨n, base⟩ := shape
      simp only [escape?, hshape] at h
      split at h
      · next hdigits =>
        cases h
        intro hmem
        rcases List.mem_cons.mp hmem with rfl | hmem
        · cases hshape
        · have hdigit := List.all_eq_true.mp hdigits.2 _ hmem
          unfold isDigitOf at hdigit
          split at hdigit <;> exact absurd hdigit (by decide)
      · cases h

/-- An interpreted string does not reach over the end of a line. -/
theorem feed_not_mem_of_stringRest {opening here : Place} {t : List Char} :
    ∀ {body left : List Char}, stringRest opening here t = .ok (body, left) → '\n' ∉ body := by
  fun_induction stringRest opening here t with
  | case1 => intro body left h; cases h
  | case2 => intro body left h; cases h
  | case3 =>
    intro body left h
    cases h
    decide
  | case4 => intro body left h; cases h
  | case5 here rest esc rest' hesc _ _ _ ih =>
    intro body left h
    cases hrec : stringRest opening (here.advance ('\\' :: esc)) rest' with
    | error e => rw [hrec] at h; cases h
    | ok r =>
      rw [hrec] at h
      cases h
      simp only [List.cons_append, List.mem_cons, List.mem_append, not_or]
      exact ⟨by decide, feed_not_mem_of_escape hesc, ih hrec⟩
  | case6 here c rest hfeed _ _ ih =>
    intro body left h
    cases hrec : stringRest opening (here.after c) rest with
    | error e => rw [hrec] at h; cases h
    | ok r =>
      rw [hrec] at h
      cases h
      rw [List.mem_cons, not_or]
      exact ⟨Ne.symm hfeed, ih hrec⟩

/-- The token is no raw string that contains a line break. -/
def Kind.isRawOnLine : Kind → Bool
  | str ('`' :: body) => !body.contains '\n'
  | _ => true

namespace Kind

/-- Only a raw string reaches over the end of a line. -/
theorem feed_not_mem_spelling {k : Kind} (h : k.Spelled) (hraw : k.isRawOnLine = true) :
    '\n' ∉ k.spelling := by
  cases k with
  | word text =>
    intro hmem
    have hword := isWordChar_of_mem h hmem
    rw [isWordChar_of_separator (by decide)] at hword
    cases hword
  | int digits =>
    intro hmem
    exact absurd (h.2 _ hmem) (by decide)
  | str literal =>
    rcases h with ⟨body, rfl, _⟩ | ⟨body, rfl, hbody⟩
    · rw [spelling, List.cons_append, List.mem_cons, not_or]
      refine ⟨by decide, ?_⟩
      simpa [isRawOnLine] using hraw
    · rw [spelling, List.mem_cons, not_or]
      exact ⟨by decide, feed_not_mem_of_stringRest (hbody .start .start [])⟩
  | comment text =>
    obtain ⟨body, rfl, hbody⟩ := h
    simp only [spelling, List.mem_cons, not_or]
    exact ⟨by decide, by decide, hbody⟩
  | punct p => cases p <;> decide
  | semicolon inserted =>
    cases h
    decide

/-- Tokens other than comments start and end in ink. -/
theorem inked_of_spelled {k : Kind} (h : k.Spelled) (hcomment : k.isComment = false)
    (hline : '\n' ∉ k.spelling) : k.Inked := by
  have hquote : ∀ {c : Char} {body : List Char}, Text.isBlank c = false →
      ∀ x ∈ (c :: body).head?, Text.isBlank x = false := by
    intro c body hc x hx
    cases hx
    exact hc
  cases k with
  | word text =>
    refine ⟨fun c hc => ?_, endsInk_of_isWord h, hline⟩
    exact isBlank_of_isWordChar (isWordChar_of_mem h (List.mem_of_mem_head? hc))
  | int digits =>
    have hink : ∀ c ∈ digits, Text.isBlank c = false :=
      fun c hc => isBlank_of_isWordChar (isWordChar_of_isDigit (h.2 c hc))
    exact ⟨fun c hc => hink c (List.mem_of_mem_head? hc), Text.endsInk_of_forall h.1 hink, hline⟩
  | str literal =>
    refine ⟨?_, (textCuts_str h).1, hline⟩
    rcases h with ⟨body, rfl, _⟩ | ⟨body, rfl, _⟩
    · exact hquote (by decide)
    · exact hquote (by decide)
  | comment text => cases hcomment
  | punct p => exact ⟨hquote (by cases p <;> decide), (textCuts_punct p).1, hline⟩
  | semicolon inserted =>
    cases h
    exact ⟨hquote (by decide), Text.endsInk_singleton (by decide), hline⟩

/-- A comment without the blanks at its end starts and ends in ink. -/
theorem inked_trimmed_comment {text : List Char} (h : (comment text).Spelled) :
    (comment (Text.trimEnd text)).Inked := by
  have hends := (lineCuts_comment h).1
  obtain ⟨blanks, htext, _⟩ := Text.exists_trimEnd_append text
  refine ⟨fun c hc => ?_, hends, fun hmem => ?_⟩
  · obtain ⟨d, rest, hrest⟩ := List.exists_cons_of_ne_nil hends.ne_nil
    have hfirst : text.head? = some d := by rw [htext, hrest]; rfl
    obtain ⟨body, rfl, _⟩ := h
    cases hfirst
    rw [spelling, hrest] at hc
    cases hc
    decide
  · have hline := feed_not_mem_spelling h rfl
    rw [spelling, htext, List.mem_append, not_or] at hline
    exact hline.1 hmem

end Kind

/-- No raw string of the text contains a line break. -/
def RawStringsOnLines (t : List Char) : Prop :=
  ∀ r, scan t = .ok r → ∀ x ∈ r.tokens, x.kind.isRawOnLine = true

instance (t : List Char) : Decidable (RawStringsOnLines t) :=
  match h : scan t with
  | .ok r => decidable_of_iff (∀ x ∈ r.tokens, x.kind.isRawOnLine = true)
      ⟨fun hall _ hr => Except.ok.inj (h.symm.trans hr) ▸ hall, fun hall => hall r h⟩
  | .error _ => isTrue fun _ hr => nomatch h.symm.trans hr

/-- The tokens of a layout fit on their lines, if the raw strings of the text it is made from do. -/
theorem inkedMarks_fileMarks {t : List Char} {its : List Item} (h : readFile t = .ok its)
    (hraw : RawStringsOnLines t) : InkedMarks (fileMarks its) := by
  obtain ⟨r, hr, hits⟩ := readFile_eq_ok_iff.mp h
  have hlegible : Legible r.tokens := spelled_of_scan hr
  intro k hk
  have hcode : k ∈ code (fileMarks its) := List.mem_filterMap.mpr ⟨_, hk, rfl⟩
  rw [code_fileMarks, code_of_readsItems hits hlegible] at hcode
  obtain ⟨l, hl, rfl⟩ := List.mem_map.mp hcode
  obtain ⟨hl, hsemicolon⟩ := List.mem_filter.mp hl
  obtain ⟨x, hx, rfl⟩ := List.mem_map.mp hl
  have hspelled : x.kind.Spelled := by
    rcases hlegible x hx with hinserted | hspelled
    · rw [hinserted] at hsemicolon
      cases hsemicolon
    · exact hspelled
  cases hcomment : x.kind.isComment with
  | true =>
    obtain ⟨text, htext⟩ := Kind.exists_of_isComment hcomment
    rw [htext] at hspelled ⊢
    exact Kind.inked_trimmed_comment hspelled
  | false =>
    have hline := Kind.feed_not_mem_spelling hspelled (hraw r hr x hx)
    rw [Kind.trimmed_eq_self hcomment]
    exact Kind.inked_of_spelled hspelled hcomment hline

/-- A file has items. -/
theorem ne_nil_of_readFile {t : List Char} {its : List Item} (h : readFile t = .ok its) :
    its ≠ [] := by
  rintro rfl
  exact nomatch properItems_of_readFile h

/-- A formatted text is in canonical layout, if no raw string reaches over the end of a line: its
lines end in ink, blank lines stand alone, between lines of text and not at the edges of bodies, and
every other line is indented by the bodies that are open. -/
theorem exists_canonicalLines_of_format {s t : String} (h : format s = .ok t)
    (hraw : RawStringsOnLines s.toList) :
    ∃ lines : List TextLine, t.toList = TextLine.textOf lines ∧
      Cuts t.toList (TextLine.marksOf lines) [] ∧ CanonicalLines lines := by
  obtain ⟨its, hread, rfl⟩ := format_eq_ok_iff.mp h
  rw [String.toList_ofList]
  have hdraws := draws_fileText (ne_nil_of_readFile hread) (inkedMarks_fileMarks hread hraw)
  obtain ⟨lines, htext, hmarks, hlines⟩ := splits_of_draws hdraws
  have hcuts := cuts_fileText (properItems_of_readFile hread)
  rw [hmarks] at hcuts
  exact ⟨lines, htext, hcuts, hlines.canonicalLines⟩

/-- Bodies inside each other, blank lines to keep and to drop, and a comment on a field's line. -/
theorem exists_canonicalLines_of_format_nested :
    let s := "package p\n\n\n// doc  \ntype T struct\x7bA struct\x7bB int `b`;\n\n\n*C // c \n" ++
      "\x7d\n\n D map[struct\x7b \x7d]interface\x7b \x7d\x7d"
    let t := "package p\n\n// doc\ntype T struct \x7b\n\tA struct \x7b\n\t\tB int `b`\n\n" ++
      "\t\t*C // c\n\t\x7d\n\n\tD map[struct\x7b\x7d]interface\x7b\x7d\n\x7d\n"
    format s = .ok t ∧ RawStringsOnLines s.toList ∧
      ∃ lines : List TextLine, t.toList = TextLine.textOf lines ∧
        Cuts t.toList (TextLine.marksOf lines) [] ∧ CanonicalLines lines := by
  intro s t
  have hs : format s = .ok t := toOption_eq_some (by decide +kernel)
  have hraw : RawStringsOnLines s.toList := by decide +kernel
  exact ⟨hs, hraw, exists_canonicalLines_of_format hs hraw⟩

end SchemaToGo.Go
