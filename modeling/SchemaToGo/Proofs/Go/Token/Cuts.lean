import SchemaToGo.Proofs.Go.Token.Lexeme
import Mathlib.Data.List.Chain
set_option autoImplicit false

/-!
# Cutting a text

A text is cut into tokens and line breaks.  Blanks only keep tokens apart.  The semicolons that the
scanner inserts, the line breaks that it counts before a token and the token's line depend on these
marks alone: `scanFrom_of_cuts`.  A text is scanned exactly if it can be cut to its end:
`exists_cuts`.
-/

namespace SchemaToGo.Go

/-- What a text is cut into. -/
inductive Mark where
  | token (k : Kind)
  | feed
  deriving DecidableEq, Repr

/-- A text is cut into marks up to a rest of it.  The rest counts, because a token is the longest
that a text starts with. -/
inductive Cuts : List Char → List Mark → List Char → Prop
  | done {t : List Char} : Cuts t [] t
  | space {c : Char} {t rest : List Char} {ms : List Mark} :
      isSpace c = true → Cuts t ms rest → Cuts (c :: t) ms rest
  | feed {t rest : List Char} {ms : List Mark} :
      Cuts t ms rest → Cuts ('\n' :: t) (.feed :: ms) rest
  | token {here : Place} {c : Char} {t rest : List Char} {l : Lexeme} {ms : List Mark} :
      lexeme here c t = .ok l → Cuts l.rest ms rest → Cuts (c :: t) (.token l.kind :: ms) rest

theorem Cuts.append {t u v : List Char} {ms ns : List Mark} (h : Cuts t ms u) (h' : Cuts u ns v) :
    Cuts t (ms ++ ns) v := by
  induction h with
  | done => exact h'
  | space hc _ ih => exact .space hc (ih h')
  | feed _ ih => exact .feed (ih h')
  | token hl _ ih => exact .token hl (ih h')

/-- A spelled token is cut off, unless what follows continues it. -/
theorem cuts_spelling {k : Kind} (h : k.Spelled) {rest : List Char}
    (hrest : k.EndsBefore rest.head?) : Cuts (k.spelling ++ rest) [.token k] rest := by
  obtain ⟨c, tail, hspelling, _, _, hlexeme⟩ := lexeme_spelling h hrest
  rw [hspelling, List.cons_append]
  exact .token (hlexeme .start) .done

/-- Blanks are skipped. -/
theorem cuts_blanks {blanks : List Char} (h : ∀ c ∈ blanks, isSpace c = true)
    (rest : List Char) : Cuts (blanks ++ rest) [] rest := by
  induction blanks with
  | nil => exact .done
  | cons c blanks ih =>
    exact .space (h c List.mem_cons_self) (ih fun x hx => h x (List.mem_cons_of_mem _ hx))

/-! ## Inserted semicolons -/

namespace Kind

/-- The token is a comment. -/
def isComment : Kind → Bool
  | comment _ => true
  | _ => false

theorem exists_of_isComment {k : Kind} (h : k.isComment = true) : ∃ text, k = .comment text := by
  cases k with
  | comment text => exact ⟨text, rfl⟩
  | _ => cases h

end Kind

/-- The tokens of marks with the semicolons that are inserted: where a token that ends a statement
has a line break, a comment or the end of the text after it.  `due` tells whether such a token
stands before the marks. -/
def withSemicolons : Bool → List Mark → List Kind
  | due, [] => if due then [.semicolon true] else []
  | due, .feed :: ms => (if due then [.semicolon true] else []) ++ withSemicolons false ms
  | due, .token k :: ms =>
    (if due && k.isComment then [.semicolon true] else []) ++
      k :: withSemicolons k.endsStatement ms

/-- No token is made up but inserted semicolons. -/
theorem mem_of_mem_withSemicolons {k : Kind} {ms : List Mark} :
    ∀ {due : Bool}, k ∈ withSemicolons due ms → k = .semicolon true ∨ .token k ∈ ms := by
  have hinserted : ∀ {b : Bool}, k ∈ (if b then [Kind.semicolon true] else []) →
      k = .semicolon true := by
    intro b hk
    cases b with
    | false => cases hk
    | true => exact List.mem_singleton.mp hk
  induction ms with
  | nil => exact fun hk => .inl (hinserted hk)
  | cons m rest ih =>
    intro due hk
    cases m with
    | feed =>
      rcases List.mem_append.mp hk with hk | hk
      · exact .inl (hinserted hk)
      · exact (ih hk).imp_right (List.mem_cons_of_mem _)
    | token l =>
      rcases List.mem_append.mp hk with hk | hk
      · exact .inl (hinserted hk)
      · rcases List.mem_cons.mp hk with rfl | hk
        · exact .inr List.mem_cons_self
        · exact (ih hk).imp_right (List.mem_cons_of_mem _)

/-! ## What the parser sees of a token -/

/-- A token without its column. -/
structure Glance where
  kind : Kind
  newlines : Nat
  line : Nat
  deriving DecidableEq, Repr

/-- What the parser sees of a token. -/
def Token.glance (t : Token) : Glance := ⟨t.kind, t.newlines, t.place.line⟩

/-- What the scanner knows between two tokens, the column apart. -/
structure Spot where
  line : Nat
  newlines : Nat
  due : Bool
  deriving DecidableEq, Repr

namespace Spot

/-- Before a text. -/
def initial : Spot := ⟨1, 0, false⟩

/-- The semicolon to insert on a line, if one is due. -/
def insertion (p : Spot) (line : Nat) : List Glance :=
  if p.due then [⟨.semicolon true, 0, line⟩] else []

/-- After a mark. -/
def pass (p : Spot) : Mark → Spot
  | .feed => ⟨p.line + 1, p.newlines + 1, false⟩
  | .token k => ⟨p.line + k.spelling.count '\n', 0, k.endsStatement⟩

/-- What a mark brings. -/
def emit (p : Spot) : Mark → List Glance
  | .feed => p.insertion p.line
  | .token k =>
    (if k.isComment then p.insertion (p.line + k.spelling.count '\n') else []) ++
      [⟨k, p.newlines, p.line⟩]

/-- After marks. -/
def passAll (p : Spot) (ms : List Mark) : Spot := ms.foldl pass p

/-- What marks bring. -/
def emitAll (p : Spot) : List Mark → List Glance
  | [] => []
  | m :: rest => p.emit m ++ (p.pass m).emitAll rest

/-- What the marks of a whole text bring. -/
def emitText (p : Spot) (ms : List Mark) : List Glance :=
  p.emitAll ms ++ (p.passAll ms).insertion (p.passAll ms).line

theorem emitAll_append (p : Spot) (ms ns : List Mark) :
    p.emitAll (ms ++ ns) = p.emitAll ms ++ (p.passAll ms).emitAll ns := by
  induction ms generalizing p with
  | nil => rfl
  | cons m rest ih =>
    show p.emit m ++ (p.pass m).emitAll (rest ++ ns) = _
    rw [ih, ← List.append_assoc]
    rfl

theorem passAll_append (p : Spot) (ms ns : List Mark) :
    p.passAll (ms ++ ns) = (p.passAll ms).passAll ns := List.foldl_append

theorem line_le_pass (p : Spot) (m : Mark) : p.line ≤ (p.pass m).line := by
  cases m with
  | feed => exact Nat.le_succ _
  | token k => exact Nat.le_add_right _ _

theorem line_le_passAll (p : Spot) (ms : List Mark) : p.line ≤ (p.passAll ms).line := by
  induction ms generalizing p with
  | nil => exact Nat.le_refl _
  | cons m rest ih => exact Nat.le_trans (p.line_le_pass m) (ih (p.pass m))

theorem emitText_cons (p : Spot) (m : Mark) (rest : List Mark) :
    p.emitText (m :: rest) = p.emit m ++ (p.pass m).emitText rest := List.append_assoc _ _ _

theorem insertion_eq_nil {p : Spot} (hp : p.due = false) (line : Nat) : p.insertion line = [] := by
  unfold insertion
  rw [hp]
  rfl

/-- If no semicolon is due, a line break brings nothing. -/
theorem emit_feed {p : Spot} (hp : p.due = false) : p.emit .feed = [] := insertion_eq_nil hp _

/-- If no semicolon is due, a token brings itself. -/
theorem emit_token {p : Spot} {k : Kind} (h : p.due = false ∨ k.isComment = false) :
    p.emit (.token k) = [⟨k, p.newlines, p.line⟩] := by
  show (if k.isComment then p.insertion _ else []) ++ _ = _
  rcases h with h | h
  · rw [insertion_eq_nil h, ite_self]
    rfl
  · rw [h]
    rfl

/-- The first token after marks knows the line breaks so far, if no semicolon comes before it. -/
theorem newlines_le_of_head?_emitText {p : Spot} (hp : p.due = false) {ms : List Mark} :
    ∀ g ∈ (p.emitText ms).head?, p.newlines ≤ g.newlines := by
  induction ms generalizing p with
  | nil =>
    intro g hg
    have hnil : p.emitText [] = [] := insertion_eq_nil hp _
    rw [hnil] at hg
    cases hg
  | cons m rest ih =>
    intro g hg
    rw [emitText_cons] at hg
    cases m with
    | feed =>
      rw [emit_feed hp] at hg
      exact Nat.le_of_succ_le (ih rfl g hg)
    | token k =>
      rw [emit_token (.inl hp)] at hg
      cases hg
      exact Nat.le_refl _

theorem newlines_le_of_head?_emitAll {p : Spot} (hp : p.due = false) {ms : List Mark} :
    ∀ g ∈ (p.emitAll ms).head?, p.newlines ≤ g.newlines := by
  intro g hg
  refine @newlines_le_of_head?_emitText p hp ms g ?_
  unfold emitText
  cases hall : p.emitAll ms with
  | nil => rw [hall] at hg; cases hg
  | cons first rest => rw [hall] at hg; exact hg

/-- The kinds of what the marks of a text bring. -/
theorem map_kind_emitText (p : Spot) (ms : List Mark) :
    (p.emitText ms).map Glance.kind = withSemicolons p.due ms := by
  have hinsertion : ∀ (q : Spot) (line : Nat),
      (q.insertion line).map Glance.kind = if q.due then [.semicolon true] else [] := by
    intro q line
    unfold insertion
    cases q.due <;> rfl
  induction ms generalizing p with
  | nil => exact hinsertion p p.line
  | cons m rest ih =>
    rw [emitText_cons, List.map_append, ih]
    cases m with
    | feed => exact congrArg (· ++ _) (hinsertion p p.line)
    | token k =>
      show ((if k.isComment then p.insertion _ else []) ++ [_]).map Glance.kind ++ _ =
        (if p.due && k.isComment then [.semicolon true] else []) ++ k :: _
      cases hcomment : k.isComment with
      | false => simp [pass]
      | true => simp [pass, hinsertion]

end Spot

/-! ## Scanning -/

/-- What the scanner knows, the column apart. -/
def ScanState.spot (s : ScanState) : Spot := ⟨s.place.line, s.newlines, s.due⟩

theorem Place.line_advance (p : Place) (t : List Char) :
    (p.advance t).line = p.line + t.count '\n' := by
  induction t generalizing p with
  | nil => rfl
  | cons c rest ih =>
    show ((p.after c).advance rest).line = _
    rw [ih]
    unfold after
    split
    · next hc =>
      subst hc
      rw [List.count_cons_self]
      show p.line + 1 + _ = _
      omega
    · next hc =>
      rw [List.count_cons_of_ne hc]

theorem ScanState.map_glance_insertion (s : ScanState) (place : Place) :
    (s.insertion place).map Token.glance = s.spot.insertion place.line := by
  unfold insertion Spot.insertion spot
  cases s.due <;> rfl

/-- Neither a line break nor a blank starts a lexeme. -/
theorem ne_blank_of_lexeme {here : Place} {c : Char} {t : List Char} {l : Lexeme}
    (h : lexeme here c t = .ok l) : c ≠ '\n' ∧ isSpace c = false := by
  have hnone : ∀ x ∈ ['\n', ' ', '\t', '\r'], c ≠ x := by
    rintro x hx rfl
    have hletter : isLetter c = false :=
      isLetter_of_separator (List.mem_append_left _ hx : c ∈ ['\n', ' ', '\t', '\r'] ++ _)
    simp only [List.mem_cons, List.not_mem_nil, or_false] at hx
    unfold lexeme at h
    rw [hletter] at h
    rcases hx with rfl | rfl | rfl | rfl <;> cases h
  refine ⟨hnone _ (by simp), ?_⟩
  simp [isSpace, hnone]

/-- A lexeme is scanned as its token, after the semicolon that a comment lets in. -/
theorem scanFrom_lexeme (s : ScanState) {here : Place} {c : Char} {t : List Char} {l : Lexeme}
    (h : lexeme here c t = .ok l) :
    scanFrom s (c :: t) = Scanned.after
      ((if l.kind.isComment then s.insertion (s.place.advance l.source) else []) ++
        [⟨l.kind, s.place, s.newlines⟩])
      (scanFrom ⟨s.place.advance l.source, 0, l.kind.endsStatement⟩ l.rest) := by
  obtain ⟨hfeed, hspace⟩ := ne_blank_of_lexeme h
  have hhere := (lexeme_proper h).same s.place
  rw [scanFrom, if_neg hfeed, if_neg (by simp [hspace])]
  split
  · next heq =>
    rw [hhere] at heq
    cases heq
  · next heq =>
    rw [hhere] at heq
    cases heq
    dsimp only
    cases scanFrom ⟨s.place.advance l.source, 0, l.kind.endsStatement⟩ l.rest with
    | error e => rfl
    | ok m =>
      cases hkind : l.kind <;>
        exact congrArg Except.ok (by simp [Kind.isComment])

/-- Scanning a text that is cut brings what its marks bring. -/
theorem scanFrom_of_cuts {t rest : List Char} {ms : List Mark} (h : Cuts t ms rest)
    (s : ScanState) : ∃ (ts : List Token) (s' : ScanState),
      scanFrom s t = Scanned.after ts (scanFrom s' rest) ∧
      ts.map Token.glance = s.spot.emitAll ms ∧ s'.spot = s.spot.passAll ms := by
  induction h generalizing s with
  | done => exact ⟨[], s, (Scanned.after_nil _).symm, rfl, rfl⟩
  | @space c t rest ms hc _ ih =>
    obtain ⟨ts, s', hscan, hts, hs'⟩ := ih { s with place := s.place.after c }
    have hfeed : c ≠ '\n' := by
      rintro rfl
      exact absurd hc (by decide)
    have hspot : ({ s with place := s.place.after c } : ScanState).spot = s.spot := by
      unfold ScanState.spot Place.after
      rw [if_neg hfeed]
    rw [hspot] at hts hs'
    refine ⟨ts, s', ?_, hts, hs'⟩
    rw [scanFrom, if_neg hfeed, if_pos hc]
    exact hscan
  | feed _ ih =>
    obtain ⟨ts, s', hscan, hts, hs'⟩ := ih s.endLine
    refine ⟨s.insertion s.place ++ ts, s', ?_, ?_, hs'⟩
    · rw [scanFrom_endLine, hscan, Scanned.after_after]
    · rw [List.map_append, hts, s.map_glance_insertion]
      rfl
  | @token here c t rest l ms hl _ ih =>
    obtain ⟨ts, s', hscan, hts, hs'⟩ :=
      ih ⟨s.place.advance l.source, 0, l.kind.endsStatement⟩
    have hline : (s.place.advance l.source).line =
        s.place.line + l.kind.spelling.count '\n' := by
      rw [Place.line_advance, (lexeme_proper hl).feeds]
    have hspot : (⟨s.place.advance l.source, 0, l.kind.endsStatement⟩ : ScanState).spot =
        s.spot.pass (.token l.kind) := by
      unfold ScanState.spot
      rw [hline]
      rfl
    rw [hspot] at hts hs'
    let before := if l.kind.isComment then s.insertion (s.place.advance l.source) else []
    refine ⟨before ++ [⟨l.kind, s.place, s.newlines⟩] ++ ts, s', ?_, ?_, hs'⟩
    · rw [scanFrom_lexeme s hl, hscan, Scanned.after_after]
    · rw [List.map_append, hts]
      refine congrArg (· ++ _) ?_
      unfold Spot.emit
      rw [List.map_append]
      refine congrArg (· ++ _) ?_
      show (if l.kind.isComment then s.insertion _ else []).map Token.glance = _
      cases l.kind.isComment with
      | false => rfl
      | true =>
        show (s.insertion _).map Token.glance = _
        rw [s.map_glance_insertion, hline]
        rfl

/-- A text that is scanned can be cut to its end. -/
theorem exists_cuts {s : ScanState} {t : List Char} {r : Scanned} (h : scanFrom s t = .ok r) :
    ∃ ms, Cuts t ms [] := by
  induction hn : t.length using Nat.strongRecOn generalizing s t r with
  | ind n ih =>
    subst hn
    cases t with
    | nil => exact ⟨[], .done⟩
    | cons c rest =>
      have hlt : ∀ u : List Char, u.length ≤ rest.length → u.length < (c :: rest).length :=
        fun u hu => Nat.lt_succ_of_le hu
      by_cases hfeed : c = '\n'
      · subst hfeed
        rw [scanFrom_endLine] at h
        cases hmore : scanFrom s.endLine rest with
        | error e => rw [hmore] at h; cases h
        | ok more =>
          obtain ⟨ms, hms⟩ := ih _ (hlt rest (Nat.le_refl _)) hmore rfl
          exact ⟨_, .feed hms⟩
      · rw [scanFrom, if_neg hfeed] at h
        split at h
        · next hspace =>
          obtain ⟨ms, hms⟩ := ih _ (hlt rest (Nat.le_refl _)) h rfl
          exact ⟨_, .space hspace hms⟩
        · split at h
          · cases h
          · next l hl =>
            dsimp only at h
            cases hmore : scanFrom ⟨s.place.advance l.source, 0, l.kind.endsStatement⟩ l.rest with
            | error e => rw [hmore] at h; cases h
            | ok more =>
              obtain ⟨ms, hms⟩ := ih _ (hlt _ (lexeme_length hl)) hmore rfl
              exact ⟨_, .token hl hms⟩

/-- From every state of the scanner, a text that is cut to its end is scanned as what its marks
bring. -/
theorem exists_scanFrom_of_cuts {t : List Char} {ms : List Mark} (h : Cuts t ms [])
    (s : ScanState) :
    ∃ r, scanFrom s t = .ok r ∧ r.tokens.map Token.glance = s.spot.emitText ms := by
  obtain ⟨ts, s', hscan, hts, hs'⟩ := scanFrom_of_cuts h s
  refine ⟨⟨ts ++ s'.insertion s'.place, s'.place⟩, ?_, ?_⟩
  · rw [hscan, scanFrom]
    rfl
  · show (ts ++ s'.insertion s'.place).map Token.glance = _
    have hline : s'.place.line = (s.spot.passAll ms).line := congrArg Spot.line hs'
    rw [List.map_append, hts, s'.map_glance_insertion, hs', hline]
    rfl

/-- A text that is cut to its end is scanned as what its marks bring. -/
theorem scan_of_cuts {t : List Char} {ms : List Mark} (h : Cuts t ms []) :
    ∃ r, scan t = .ok r ∧ r.tokens.map Token.glance = Spot.initial.emitText ms :=
  exists_scanFrom_of_cuts h .initial

/-- What is scanned is what the marks of the text bring. -/
theorem exists_cuts_of_scan {t : List Char} {r : Scanned} (h : scan t = .ok r) :
    ∃ ms, Cuts t ms [] ∧ r.tokens.map Token.glance = Spot.initial.emitText ms := by
  obtain ⟨ms, hms⟩ := exists_cuts h
  obtain ⟨r', hr', hglances⟩ := scan_of_cuts hms
  rw [h] at hr'
  cases hr'
  exact ⟨ms, hms, hglances⟩

/-- What the marks of a text bring are its tokens and inserted semicolons. -/
theorem map_kind_of_glances {p : Spot} {ts : List Token} {ms : List Mark}
    (h : ts.map Token.glance = p.emitText ms) :
    ts.map Token.kind = withSemicolons p.due ms := by
  calc ts.map Token.kind
      = (ts.map Token.glance).map Glance.kind := by
        rw [List.map_map]
        rfl
    _ = withSemicolons p.due ms := by rw [h, Spot.map_kind_emitText]

/-- The tokens that are scanned are those that the text is cut into and inserted semicolons. -/
theorem exists_withSemicolons_of_scan {t : List Char} {r : Scanned} (h : scan t = .ok r) :
    ∃ ms, Cuts t ms [] ∧ r.tokens.map Token.kind = withSemicolons false ms := by
  obtain ⟨ms, hms, hglances⟩ := exists_cuts_of_scan h
  exact ⟨ms, hms, map_kind_of_glances hglances⟩

/-! ## What is cut off -/

/-- The tokens that are cut off a text are spelled. -/
theorem Cuts.spelled {t rest : List Char} {ms : List Mark} (h : Cuts t ms rest) {k : Kind}
    (hk : .token k ∈ ms) : k.Spelled := by
  induction h with
  | done => cases hk
  | space _ _ ih => exact ih hk
  | feed _ ih =>
    rcases List.mem_cons.mp hk with heq | hk
    · cases heq
    · exact ih hk
  | token hl _ ih =>
    rcases List.mem_cons.mp hk with heq | hk
    · cases heq
      exact (lexeme_proper hl).spelled
    · exact ih hk

/-- Every token that is scanned is spelled, or an inserted semicolon. -/
theorem spelled_of_scan {t : List Char} {r : Scanned} (h : scan t = .ok r) :
    ∀ x ∈ r.tokens, x.kind = .semicolon true ∨ x.kind.Spelled := by
  obtain ⟨ms, hms, hkinds⟩ := exists_withSemicolons_of_scan h
  intro x hx
  have hmem : x.kind ∈ withSemicolons false ms := hkinds ▸ List.mem_map_of_mem hx
  exact (mem_of_mem_withSemicolons hmem).imp_right hms.spelled

/-! ## After a comment -/

/-- What follows a comment is a line break. -/
def Mark.Before (m n : Mark) : Prop := ∀ text, m = .token (.comment text) → n = .feed

theorem Cuts.head?_eq_feed {t rest : List Char} {ms : List Mark} (h : Cuts t ms rest)
    (ht : ∀ c ∈ t.head?, c = '\n') : ∀ m ∈ ms.head?, m = .feed := by
  intro m hm
  cases h with
  | done => cases hm
  | space hspace =>
    rw [ht _ rfl] at hspace
    cases hspace
  | feed => cases hm; rfl
  | token hl => exact absurd (ht _ rfl) (ne_blank_of_lexeme hl).1

/-- Comments reach to the ends of their lines. -/
theorem Cuts.isChain {t rest : List Char} {ms : List Mark} (h : Cuts t ms rest) :
    ms.IsChain Mark.Before := by
  induction h with
  | done => exact .nil
  | space _ _ ih => exact ih
  | feed _ ih => exact ih.cons fun _ _ _ hcomment => nomatch hcomment
  | token hl hmore ih =>
    refine ih.cons fun m hm text hcomment => ?_
    have hends := (lexeme_proper hl).ends
    rw [Mark.token.inj hcomment] at hends
    exact hmore.head?_eq_feed hends m hm

/-- A token that follows a comment has a line break before it. -/
def Glance.Before (g h : Glance) : Prop := g.kind.isComment = true → 0 < h.newlines

theorem Spot.isChain_emitText (p : Spot) {ms : List Mark} (h : ms.IsChain Mark.Before) :
    (p.emitText ms).IsChain Glance.Before := by
  have hinsertion : ∀ (q : Spot) (line : Nat) {gs : List Glance}, gs.IsChain Glance.Before →
      (q.insertion line ++ gs).IsChain Glance.Before := by
    intro q line gs hgs
    unfold insertion
    cases q.due with
    | false => exact hgs
    | true => exact hgs.cons fun _ _ hcomment => nomatch hcomment
  induction ms generalizing p with
  | nil =>
    have hnil : p.emitText [] = p.insertion p.line ++ [] := (List.append_nil _).symm
    rw [hnil]
    exact hinsertion p _ .nil
  | cons m rest ih =>
    have hrest := ih (p.pass m) h.tail
    rw [emitText_cons]
    cases m with
    | feed => exact hinsertion p _ hrest
    | token k =>
      have hchain : (⟨k, p.newlines, p.line⟩ :: (p.pass (.token k)).emitText rest).IsChain
          Glance.Before := by
        refine hrest.cons fun g hg hcomment => ?_
        obtain ⟨text, rfl⟩ := Kind.exists_of_isComment hcomment
        -- the line ends after the comment, and no semicolon is due there
        cases rest with
        | nil => cases hg
        | cons n rest =>
          obtain rfl : n = .feed := h.rel_head? rfl text rfl
          exact newlines_le_of_head?_emitText (p := (p.pass (.token (.comment text))).pass .feed)
            rfl g hg
      show (((if k.isComment then p.insertion _ else []) ++ [_]) ++ _).IsChain _
      rw [List.append_assoc]
      cases k.isComment with
      | false => exact hchain
      | true => exact hinsertion p _ hchain

/-- A token that follows a comment has a line break before it. -/
def Token.Before (t u : Token) : Prop := t.kind.isComment = true → 0 < u.newlines

/-- Tokens that are scanned stand on other lines than the comments before them. -/
theorem isChain_of_scan {t : List Char} {r : Scanned} (h : scan t = .ok r) :
    r.tokens.IsChain Token.Before := by
  obtain ⟨ms, hms, hglances⟩ := exists_cuts_of_scan h
  have hchain := Spot.initial.isChain_emitText hms.isChain
  rw [← hglances] at hchain
  exact List.isChain_of_isChain_map Token.glance (fun _ _ hbefore => hbefore) hchain

end SchemaToGo.Go
