import SchemaToGo.Proofs.Go.Token.Cuts
import SchemaToGo.Proofs.Result
set_option autoImplicit false

/-!
# How far the scanner has come

The scanner reads a text from left to right.  What it has found when it comes to a place depends on
the text before this place alone, as long as the next character does not continue the last token:
`Reached.scan_append`.  It reaches the end of the text, or a place where no lexeme starts:
`exists_reached`.

A token stands where the text before it ends, and this text brings the tokens before it.  Only the
semicolon that is inserted before a comment stands elsewhere, behind the comment: `Reached.split`.
-/

namespace SchemaToGo.Go

/-! ## Sources of tokens -/

namespace Kind

/-- The scanner reads the text as a token of this kind, unless what follows continues it. -/
def IsSource (k : Kind) (source : List Char) : Prop :=
  ∃ c tail, source = c :: tail ∧ ∀ (here : Place) (rest : List Char), k.EndsBefore rest.head? →
    lexeme here c (tail ++ rest) = .ok ⟨k, source, rest⟩

variable {k : Kind}

theorem endsBefore_none (k : Kind) : k.EndsBefore none := by
  cases k with
  | word text => exact nofun
  | int digits => exact nofun
  | comment text => exact nofun
  | _ => trivial

/-- A line break continues no token. -/
theorem endsBefore_feed (k : Kind) : k.EndsBefore (some '\n') := by
  cases k with
  | word text => intro c hc; cases hc; exact isWordChar_of_separator (by simp [separators])
  | int digits => intro c hc; cases hc; rfl
  | comment text => intro c hc; cases hc; rfl
  | _ => trivial

/-- A blank continues no token but a comment. -/
theorem endsBefore_space (hk : k.isComment = false) : k.EndsBefore (some ' ') := by
  cases k with
  | word text => intro c hc; cases hc; exact isWordChar_of_separator (by simp [separators])
  | int digits => intro c hc; cases hc; rfl
  | comment text => cases hk
  | _ => trivial

/-- A comment goes on to the end of its line. -/
theorem isComment_eq_false_of_endsBefore {c : Char} (h : k.EndsBefore (some c)) (hc : c ≠ '\n') :
    k.isComment = false := by
  cases k with
  | comment text => exact absurd (h c rfl) hc
  | _ => rfl

/-- The spelling of a token is a source of it. -/
theorem Spelled.isSource (h : k.Spelled) : k.IsSource k.spelling := by
  have hnone : k.EndsBefore ([] : List Char).head? := k.endsBefore_none
  obtain ⟨c, tail, hspelling, _⟩ := lexeme_spelling h hnone
  refine ⟨c, tail, hspelling, fun here rest hrest => ?_⟩
  obtain ⟨c', tail', hspelling', _, _, hlexeme⟩ := lexeme_spelling h hrest
  rw [hspelling] at hspelling'
  cases hspelling'
  exact hlexeme here

/-- A source of a token starts with a character other than a line break. -/
theorem IsSource.exists_cons {source : List Char} (h : k.IsSource source) :
    ∃ c tail, source = c :: tail ∧ c ≠ '\n' := by
  obtain ⟨c, tail, rfl, hlexeme⟩ := h
  have hc := ne_blank_of_lexeme (hlexeme .start [] k.endsBefore_none)
  exact ⟨c, tail, rfl, hc.1⟩

theorem IsSource.spelled {source : List Char} (h : k.IsSource source) : k.Spelled := by
  obtain ⟨c, tail, _, hlexeme⟩ := h
  exact (lexeme_proper (hlexeme .start [] k.endsBefore_none)).spelled

end Kind

theorem rawRest?_eq_some {t body left : List Char} (h : rawRest? t = some (body, left)) :
    t = body ++ '`' :: left ∧ '`' ∉ body := by
  unfold rawRest? at h
  split at h
  · cases h
  · next c left hdrop =>
    cases h
    have hc := head?_dropWhile_eq_false c (by rw [hdrop]; rfl)
    rw [decide_eq_false_iff_not, not_not] at hc
    subst hc
    constructor
    · rw [← hdrop, List.takeWhile_append_dropWhile]
    · intro hmem
      have := of_mem_takeWhile hmem
      simp at this

theorem rawRest?_append {body : List Char} (h : '`' ∉ body) (left : List Char) :
    rawRest? (body ++ '`' :: left) = some (body, left) := by
  have hbody : ∀ x ∈ body, decide (x ≠ '`') = true :=
    fun x hx => decide_eq_true fun heq => h (heq ▸ hx)
  have hstop : ∀ x ∈ ('`' :: left).head?, decide (x ≠ '`') = false := by simp
  obtain ⟨htake, hdrop⟩ := takeWhile_append_stop hbody hstop
  unfold rawRest?
  rw [htake, hdrop]

theorem isSource_of_rawLexeme {here : Place} {t : List Char} {l : Lexeme}
    (h : rawLexeme here t = .ok l) : '`' :: t = l.source ++ l.rest ∧ l.kind.IsSource l.source := by
  unfold rawLexeme at h
  split at h
  · cases h
  · next body left hraw =>
    cases h
    obtain ⟨rfl, hbody⟩ := rawRest?_eq_some hraw
    refine ⟨by simp, '`', body ++ ['`'], rfl, fun here rest _ => ?_⟩
    rw [List.append_assoc, List.singleton_append]
    unfold lexeme rawLexeme
    rw [if_neg (by decide), if_pos rfl, rawRest?_append hbody]

/-- A lexeme other than a raw string is its own spelling. -/
theorem source_eq_spelling {here : Place} {c : Char} {t : List Char} {l : Lexeme}
    (h : lexeme here c t = .ok l) (hc : c ≠ '`') :
    c :: t = l.source ++ l.rest ∧ l.source = l.kind.spelling := by
  unfold lexeme at h
  rw [if_neg hc] at h
  split at h
  · next hslash =>
    unfold commentLexeme at h
    split at h
    · cases h
      rw [hslash]
      exact ⟨congrArg _ List.takeWhile_append_dropWhile.symm, rfl⟩
    · cases h
  split at h
  · next hquote =>
    unfold stringLexeme at h
    obtain ⟨⟨body, left⟩, hr, h⟩ := bind_eq_ok_iff.mp h
    cases h
    obtain ⟨htext, _⟩ := stringRest_eq_ok hr
    rw [hquote, htext]
    exact ⟨rfl, rfl⟩
  split at h
  · cases h
    exact ⟨congrArg _ List.takeWhile_append_dropWhile.symm, rfl⟩
  split at h
  · cases h
    exact ⟨congrArg _ List.takeWhile_append_dropWhile.symm, rfl⟩
  split at h
  · next hsemicolon =>
    cases h
    rw [hsemicolon]
    exact ⟨rfl, rfl⟩
  split at h
  · next p hp =>
    cases h
    rw [Punct.ofChar?_eq_some_iff.mp hp]
    exact ⟨rfl, rfl⟩
  · cases h

/-- A lexeme is taken off the text, and its source is read in the same way before any other text
that does not continue it. -/
theorem isSource_of_lexeme {here : Place} {c : Char} {t : List Char} {l : Lexeme}
    (h : lexeme here c t = .ok l) : c :: t = l.source ++ l.rest ∧ l.kind.IsSource l.source := by
  by_cases hc : c = '`'
  · subst hc
    have hraw : rawLexeme here t = .ok l := by
      unfold lexeme at h
      rwa [if_neg (by decide), if_pos rfl] at h
    exact isSource_of_rawLexeme hraw
  · obtain ⟨htext, hsource⟩ := source_eq_spelling h hc
    refine ⟨htext, ?_⟩
    rw [hsource]
    exact (lexeme_proper h).spelled.isSource

/-- A comment is its own source. -/
theorem Kind.IsSource.eq_of_comment {text source : List Char}
    (h : (Kind.comment text).IsSource source) : source = text := by
  obtain ⟨c, tail, rfl, hlexeme⟩ := h
  have hok := hlexeme .start [] (Kind.comment text).endsBefore_none
  have hc : c ≠ '`' := by
    rintro rfl
    unfold lexeme rawLexeme at hok
    rw [if_neg (by decide), if_pos rfl] at hok
    split at hok <;> cases hok
  exact (source_eq_spelling hok hc).2

/-! ## Reaching a place -/

/-- What follows a text does not continue its last token, if the text ends in one. -/
def Apart (last : Option Kind) (rest : List Char) : Prop := ∀ k ∈ last, k.EndsBefore rest.head?

namespace Apart

variable {last : Option Kind} {c : Char} {rest : List Char}

theorem none (rest : List Char) : Apart .none rest := nofun

theorem nil (last : Option Kind) : Apart last [] := fun k _ => k.endsBefore_none

theorem feed (last : Option Kind) (rest : List Char) : Apart last ('\n' :: rest) :=
  fun k _ => k.endsBefore_feed

theorem space (h : ∀ k ∈ last, k.isComment = false) (rest : List Char) :
    Apart last (' ' :: rest) :=
  fun k hk => Kind.endsBefore_space (h k hk)

theorem isComment_eq_false (h : Apart last (c :: rest)) (hc : c ≠ '\n') :
    ∀ k ∈ last, k.isComment = false :=
  fun k hk => Kind.isComment_eq_false_of_endsBefore (h k hk) hc

/-- Only the next character counts. -/
theorem same_head (h : Apart last (c :: rest)) (rest' : List Char) : Apart last (c :: rest') := h

end Apart

/-- The scanner has come to the end of a text: the tokens that it has found, its state, and the
token that the text ends in, if no blank follows it. -/
inductive Reached : List Char → List Token → ScanState → Option Kind → Prop
  | start : Reached [] [] .initial none
  | space {t : List Char} {ts : List Token} {s : ScanState} {last : Option Kind} {c : Char} :
      Reached t ts s last → Apart last [c] → isSpace c = true →
      Reached (t ++ [c]) ts { s with place := s.place.after c } none
  | feed {t : List Char} {ts : List Token} {s : ScanState} {last : Option Kind} :
      Reached t ts s last → Reached (t ++ ['\n']) (ts ++ s.insertion s.place) s.endLine none
  | token {t source : List Char} {ts : List Token} {s : ScanState} {last : Option Kind} {k : Kind} :
      Reached t ts s last → Apart last source → k.IsSource source →
      Reached (t ++ source)
        (ts ++ ((if k.isComment then s.insertion (s.place.advance source) else []) ++
          [⟨k, s.place, s.newlines⟩]))
        ⟨s.place.advance source, 0, k.endsStatement⟩ (some k)

namespace Reached

variable {t : List Char} {ts : List Token} {s : ScanState} {last : Option Kind}

/-- What the scanner has found is found whatever follows, as long as this does not continue the
last token. -/
theorem scan_append (h : Reached t ts s last) :
    ∀ rest, Apart last rest → scan (t ++ rest) = Scanned.after ts (scanFrom s rest) := by
  induction h with
  | start => exact fun rest _ => (Scanned.after_nil _).symm
  | @space t ts s last c _ hapart hc ih =>
    intro rest _
    have hfeed : c ≠ '\n' := by
      rintro rfl
      exact absurd hc (by decide)
    rw [List.append_assoc, List.singleton_append, ih _ (hapart.same_head rest), scanFrom,
      if_neg hfeed, if_pos hc]
  | feed _ ih =>
    intro rest _
    rw [List.append_assoc, List.singleton_append, ih _ (.feed _ _), scanFrom_endLine,
      Scanned.after_after]
  | @token t source ts s last k _ hapart hsource ih =>
    intro rest hrest
    obtain ⟨c, tail, rfl, hlexeme⟩ := hsource
    have hl := hlexeme s.place rest (hrest k rfl)
    rw [List.append_assoc, List.cons_append, ih _ (hapart.same_head _), scanFrom_lexeme s hl,
      Scanned.after_after]

/-- A text whose end is reached is scanned. -/
theorem scan_eq_ok (h : Reached t ts s last) :
    scan t = .ok ⟨ts ++ s.insertion s.place, s.place⟩ := by
  have hscan := h.scan_append [] (.nil last)
  rw [List.append_nil, scanFrom] at hscan
  exact hscan

/-- A text is refused where no lexeme starts. -/
theorem scan_eq_error (h : Reached t ts s last) {c : Char} {rest : List Char} {e : FormatError}
    (hapart : Apart last (c :: rest)) (hfeed : c ≠ '\n') (hspace : isSpace c = false)
    (he : lexeme s.place c rest = .error e) : scan (t ++ c :: rest) = .error e := by
  rw [h.scan_append _ hapart, scanFrom, if_neg hfeed, if_neg (by simp [hspace])]
  split
  · next heq =>
    rw [he] at heq
    cases heq
    rfl
  · next heq =>
    rw [he] at heq
    cases heq

/-- The state of the scanner knows its place. -/
theorem place (h : Reached t ts s last) : s.place = Place.start.advance t := by
  induction h with
  | start => rfl
  | space _ _ _ ih | feed _ ih =>
    rw [Place.advance_append, ← ih]
    rfl
  | token _ _ _ ih => rw [Place.advance_append, ← ih]

/-- Where a semicolon is due, the last token is on the same line and no comment. -/
theorem of_due (h : Reached t ts s last) (hdue : s.due = true) :
    s.newlines = 0 ∧ ∀ k ∈ last, k.isComment = false := by
  induction h with
  | start => cases hdue
  | space _ _ _ ih => exact ⟨(ih hdue).1, nofun⟩
  | feed => cases hdue
  | @token _ source _ _ _ k _ _ _ =>
    refine ⟨rfl, fun l hl => ?_⟩
    cases hl
    cases k with
    | comment text => cases hdue
    | _ => rfl

end Reached

/-! ## Runs of the scanner -/

/-- The scanner comes to a place of the text where no lexeme starts. -/
def Halts (t : List Char) (e : FormatError) : Prop :=
  ∃ front c back ts s last, t = front ++ c :: back ∧ Reached front ts s last ∧
    Apart last (c :: back) ∧ c ≠ '\n' ∧ isSpace c = false ∧ lexeme s.place c back = .error e

theorem Halts.scan_eq_error {t : List Char} {e : FormatError} (h : Halts t e) :
    scan t = .error e := by
  obtain ⟨front, c, back, ts, s, last, rfl, hreached, hapart, hfeed, hspace, he⟩ := h
  exact hreached.scan_eq_error hapart hfeed hspace he

/-- From every place that it has come to, the scanner reaches the end of the text, or a place where
no lexeme starts. -/
theorem Reached.append {t : List Char} {ts : List Token} {s : ScanState} {last : Option Kind}
    (h : Reached t ts s last) {rest : List Char} (hapart : Apart last rest) :
    (∃ ts' s' last', Reached (t ++ rest) ts' s' last') ∨ ∃ e, Halts (t ++ rest) e := by
  induction hn : rest.length using Nat.strongRecOn generalizing t ts s last rest with
  | ind n ih =>
    subst hn
    cases rest with
    | nil =>
      rw [List.append_nil]
      exact .inl ⟨ts, s, last, h⟩
    | cons c rest =>
      by_cases hfeed : c = '\n'
      · subst hfeed
        have := ih _ (Nat.lt_succ_self _) h.feed (.none rest) rfl
        simpa using this
      by_cases hspace : isSpace c = true
      · have := ih _ (Nat.lt_succ_self _) (h.space (hapart.same_head []) hspace) (.none rest) rfl
        simpa using this
      cases hlexeme : lexeme s.place c rest with
      | error e =>
        exact .inr ⟨e, t, c, rest, ts, s, last, rfl, h, hapart, hfeed, eq_false_of_ne_true hspace,
          hlexeme⟩
      | ok l =>
        obtain ⟨htext, hsource⟩ := isSource_of_lexeme hlexeme
        have hends : Apart (some l.kind) l.rest := by
          intro k hk
          cases hk
          exact (lexeme_proper hlexeme).ends
        have hbefore : Apart last l.source := by
          obtain ⟨x, tail, hx, _⟩ := hsource.exists_cons
          rw [hx] at htext ⊢
          cases htext
          exact hapart.same_head tail
        have hlt : l.rest.length < (c :: rest).length := Nat.lt_succ_of_le (lexeme_length hlexeme)
        have := ih _ hlt (h.token hbefore hsource) hends rfl
        rw [List.append_assoc, ← htext] at this
        exact this

/-- A text that is scanned is reached to its end. -/
theorem exists_reached_of_scan {t : List Char} {r : Scanned} (h : scan t = .ok r) :
    ∃ ts s last, Reached t ts s last ∧ r = ⟨ts ++ s.insertion s.place, s.place⟩ := by
  rcases Reached.start.append (.none t) with ⟨ts, s, last, hreached⟩ | ⟨e, he⟩
  · have hscan := hreached.scan_eq_ok
    rw [List.nil_append] at hreached hscan
    rw [h] at hscan
    exact ⟨ts, s, last, hreached, Except.ok.inj hscan⟩
  · have hscan := he.scan_eq_error
    rw [List.nil_append, h] at hscan
    cases hscan

/-- A text that is not scanned has a place where no lexeme starts. -/
theorem halts_of_scan {t : List Char} {e : FormatError} (h : scan t = .error e) : Halts t e := by
  rcases Reached.start.append (.none t) with ⟨ts, s, last, hreached⟩ | ⟨e', he⟩
  · have hscan := hreached.scan_eq_ok
    rw [List.nil_append, h] at hscan
    cases hscan
  · have hscan := he.scan_eq_error
    rw [List.nil_append] at he hscan
    rw [h] at hscan
    cases hscan
    exact he

/-! ## Errors of the scanner -/

/-- A lexeme is refused where it starts, or a string behind a backslash that starts no escape.  Such
a string can be closed by two quotes, the first of which belongs to the escape. -/
theorem lexeme_eq_error {here : Place} {c : Char} {t : List Char} {e : FormatError}
    (h : lexeme here c t = .error e) : e.place = here ∨
      ∃ part back literal, c :: t = part ++ back ∧ part ≠ [] ∧ e.place = here.advance part ∧
        (Kind.str literal).IsSource (part ++ ['"', '"']) := by
  unfold lexeme at h
  split at h
  · unfold commentLexeme at h
    split at h
    · cases h
    · cases h
      exact .inl rfl
  split at h
  · unfold rawLexeme at h
    split at h
    · cases h
      exact .inl rfl
    · cases h
  split at h
  · next hquote =>
    subst hquote
    unfold stringLexeme at h
    rw [bind_eq_error_iff] at h
    rcases h with h | ⟨_, _, h⟩
    · rcases stringRest_eq_error h with hplace | ⟨body, back, rfl, hplace, hclosed⟩
      · exact .inl hplace
      · refine .inr ⟨'"' :: body, back, '"' :: (body ++ ['"', '"']), rfl, List.cons_ne_nil _ _,
          hplace, '"', body ++ ['"', '"'], rfl, fun here rest _ => ?_⟩
        exact lexeme_string hclosed here
    · cases h
  split at h
  · cases h
  split at h
  · cases h
  split at h
  · cases h
  split at h
  · cases h
  · cases h
    exact .inl rfl

/-- The text before the place of an error is scanned, after closing the string in which the error
is, if it is in one. -/
theorem Halts.exists_closed {t : List Char} {e : FormatError} (h : Halts t e) :
    ∃ front back closing ts s last, t = front ++ back ∧ e.place = Place.start.advance front ∧
      closing ∈ [[], ['"', '"']] ∧ Reached (front ++ closing) ts s last ∧
      ∀ k ∈ last, k.isComment = false := by
  obtain ⟨front, c, back, ts, s, last, rfl, hreached, hapart, hfeed, _, he⟩ := h
  rcases lexeme_eq_error he with hplace | ⟨part, back', literal, htext, hpart, hplace, hsource⟩
  · refine ⟨front, c :: back, [], ts, s, last, rfl, ?_, by simp, ?_,
      hapart.isComment_eq_false hfeed⟩
    · rw [hplace, hreached.place]
    · rwa [List.append_nil]
  · have hbefore : Apart last (part ++ ['"', '"']) := by
      cases part with
      | nil => exact absurd rfl hpart
      | cons x part =>
        cases htext
        exact hapart.same_head _
    have hclosed := hreached.token hbefore hsource
    rw [← List.append_assoc] at hclosed
    refine ⟨front ++ part, back', ['"', '"'], _, _, _, ?_, ?_, by simp, hclosed, ?_⟩
    · rw [List.append_assoc, ← htext]
    · rw [hplace, hreached.place, Place.advance_append]
    · intro k hk
      cases hk
      rfl

/-! ## Where tokens stand -/

/-- Tokens of these kinds come first in every text that goes on with some blank and something after
it. -/
def Brings (t : List Char) (ks : List Kind) : Prop :=
  ∃ gap ts s, ts.map Token.kind = ks ∧
    ∀ rest, scan (t ++ gap :: rest) = Scanned.after ts (scanFrom s rest)

/-- The first of the tokens left in a text stands where the text that brings the others ends, or it
is a semicolon that is inserted before a comment and stands behind it. -/
inductive Stands (t : List Char) (last : Option Kind) (used : List Token) : List Token → Prop
  | here {front back : List Char} {x : Token} {left : List Token} :
      t = front ++ back → back ≠ [] → Brings front (used.map Token.kind) →
      x.place = Place.start.advance front → Stands t last used (x :: left)
  | behind {front comment back : List Char} {left : List Token} :
      t = front ++ comment ++ back → (back = [] → last = some (.comment comment)) →
      Apart (some (.comment comment)) back → Brings front (used.map Token.kind) →
      Stands t last used (⟨.semicolon true, Place.start.advance (front ++ comment), 0⟩ ::
        ⟨.comment comment, Place.start.advance front, 0⟩ :: left)

theorem Stands.append {t : List Char} {last : Option Kind} {used left : List Token}
    (h : Stands t last used left) {more : List Char} (hmore : more ≠ []) (hapart : Apart last more)
    (last' : Option Kind) (new : List Token) : Stands (t ++ more) last' used (left ++ new) := by
  cases h with
  | @here front back x left ht hback hbrings hplace =>
    have hsplit : t ++ more = front ++ (back ++ more) := by rw [ht, List.append_assoc]
    refine .here hsplit (fun hnil => ?_) hbrings hplace
    exact hmore (List.append_eq_nil_iff.mp hnil).2
  | @behind front comment back left ht hlast hback hbrings =>
    have hsplit : t ++ more = front ++ comment ++ (back ++ more) := by rw [ht, List.append_assoc]
    refine .behind hsplit (fun hnil => ?_) ?_ hbrings
    · exact absurd (List.append_eq_nil_iff.mp hnil).2 hmore
    · cases back with
      | nil =>
        rw [hlast rfl] at hapart
        exact hapart
      | cons c back => exact hback.same_head (back ++ more)

namespace Reached

variable {t : List Char} {ts : List Token} {s : ScanState} {last : Option Kind}

theorem brings_of_gap {gap : Char} (h : Reached (t ++ [gap]) ts s none) :
    Brings t (ts.map Token.kind) := by
  refine ⟨gap, ts, s, rfl, fun rest => ?_⟩
  have hscan := h.scan_append rest (.none rest)
  rwa [List.append_assoc, List.singleton_append] at hscan

/-- A blank keeps what follows from the last token, if this is no comment. -/
theorem brings (h : Reached t ts s last) (hlast : ∀ k ∈ last, k.isComment = false) :
    Brings t (ts.map Token.kind) :=
  (h.space (.space hlast []) (by decide : isSpace ' ' = true)).brings_of_gap

/-- A line break keeps what follows from the last token, and brings the semicolon that is due. -/
theorem brings_ended (h : Reached t ts s last) (place : Place) :
    Brings t ((ts ++ s.insertion place).map Token.kind) := by
  have hkinds : (s.insertion place).map Token.kind = (s.insertion s.place).map Token.kind := by
    unfold ScanState.insertion
    cases s.due <;> rfl
  rw [List.map_append, hkinds, ← List.map_append]
  exact h.feed.brings_of_gap

end Reached

theorem insertion_of_due {s : ScanState} (h : s.due = true) (place : Place) :
    s.insertion place = [⟨.semicolon true, place, 0⟩] := if_pos h

/-- Tokens at the end of two lists in a row begin in the first one or in the second one. -/
theorem append_eq_append_of_ne_nil {α : Type} {as bs used left : List α}
    (h : as ++ bs = used ++ left) :
    (∃ more, more ≠ [] ∧ as = used ++ more ∧ left = more ++ bs) ∨
      ∃ more, used = as ++ more ∧ bs = more ++ left := by
  rcases List.append_eq_append_iff.mp h with ⟨more, hused, hbs⟩ | ⟨more, has, hleft⟩
  · exact .inr ⟨more, hused, hbs⟩
  · by_cases hmore : more = []
    · subst hmore
      exact .inr ⟨[], by simpa using has.symm, hleft.symm⟩
    · exact .inl ⟨more, hmore, has, hleft⟩

theorem eq_nil_of_singleton_eq_append {α : Type} {x : α} {more left : List α}
    (h : [x] = more ++ left) (hleft : left ≠ []) : more = [] ∧ left = [x] := by
  rcases List.singleton_eq_append_iff.mp h with h | ⟨_, hnil⟩
  · exact h
  · exact absurd hnil hleft

section

variable {t source : List Char} {ts more left : List Token} {s : ScanState} {last : Option Kind}
  {k : Kind}

/-- A semicolon that is due at a line break stands there. -/
theorem Reached.stands_feed (h : Reached t ts s last)
    (hnew : s.insertion s.place = more ++ left) (hleft : left ≠ []) :
    Stands (t ++ ['\n']) none (ts ++ more) left := by
  cases hdue : s.due with
  | false =>
    rw [ScanState.insertion, hdue] at hnew
    exact absurd (List.append_eq_nil_iff.mp hnew.symm).2 hleft
  | true =>
    rw [insertion_of_due hdue] at hnew
    obtain ⟨rfl, rfl⟩ := eq_nil_of_singleton_eq_append hnew hleft
    rw [List.append_nil]
    exact .here rfl (List.cons_ne_nil _ []) (h.brings (h.of_due hdue).2) h.place

/-- A token stands where it starts, and a semicolon before a comment stands where that ends. -/
theorem Reached.stands_token (h : Reached t ts s last) (hapart : Apart last source)
    (hsource : k.IsSource source)
    (hnew : (if k.isComment then s.insertion (s.place.advance source) else []) ++
      [⟨k, s.place, s.newlines⟩] = more ++ left) (hleft : left ≠ []) :
    Stands (t ++ source) (some k) (ts ++ more) left := by
  obtain ⟨c, tail, hcons, hc⟩ := hsource.exists_cons
  have hne : source ≠ [] := by
    rw [hcons]
    exact List.cons_ne_nil c tail
  have hlast : ∀ k ∈ last, k.isComment = false := by
    rw [hcons] at hapart
    exact hapart.isComment_eq_false hc
  have halone : [⟨k, s.place, s.newlines⟩] = more ++ left →
      Stands (t ++ source) (some k) (ts ++ more) left := by
    intro hnew
    obtain ⟨rfl, rfl⟩ := eq_nil_of_singleton_eq_append hnew hleft
    rw [List.append_nil]
    exact .here rfl hne (h.brings hlast) h.place
  cases hcomment : k.isComment with
  | false =>
    rw [hcomment] at hnew
    exact halone hnew
  | true =>
    rw [hcomment, if_pos rfl] at hnew
    cases hdue : s.due with
    | false =>
      rw [ScanState.insertion, hdue] at hnew
      exact halone hnew
    | true =>
      rw [insertion_of_due hdue] at hnew
      obtain ⟨text, rfl⟩ := Kind.exists_of_isComment hcomment
      obtain rfl := hsource.eq_of_comment
      cases more with
      | nil =>
        -- the semicolon is what is left
        cases hnew
        rw [List.append_nil, (h.of_due hdue).1, h.place, ← Place.advance_append]
        exact .behind (List.append_nil _).symm (fun _ => rfl) (.nil _) (h.brings hlast)
      | cons semicolon more =>
        -- the comment is left, and a line break brings the semicolon before it
        obtain ⟨rfl, hcommented⟩ := List.cons.inj hnew
        obtain ⟨rfl, rfl⟩ := eq_nil_of_singleton_eq_append hcommented hleft
        have hbrings := h.brings_ended (s.place.advance source)
        rw [insertion_of_due hdue] at hbrings
        exact .here rfl hne hbrings h.place

end

/-- Every token but a semicolon before a comment stands where the text before it ends. -/
theorem Reached.stands {t : List Char} {ts : List Token} {s : ScanState} {last : Option Kind}
    (h : Reached t ts s last) {used left : List Token} (hts : ts = used ++ left)
    (hleft : left ≠ []) : Stands t last used left := by
  induction h generalizing used left with
  | start => exact absurd (List.append_eq_nil_iff.mp hts.symm).2 hleft
  | @space t ts s last c _ hapart _ ih =>
    have hstands := (ih hts hleft).append (List.cons_ne_nil c []) hapart none []
    rwa [List.append_nil] at hstands
  | feed h ih =>
    rcases append_eq_append_of_ne_nil hts with ⟨more, hmore, has, rfl⟩ | ⟨more, rfl, hnew⟩
    · exact (ih has hmore).append (List.cons_ne_nil _ []) (.feed _ []) none _
    · exact h.stands_feed hnew hleft
  | token h hapart hsource ih =>
    rcases append_eq_append_of_ne_nil hts with ⟨more, hmore, has, rfl⟩ | ⟨more, rfl, hnew⟩
    · obtain ⟨c, tail, rfl, _⟩ := hsource.exists_cons
      exact (ih has hmore).append (List.cons_ne_nil c tail) hapart _ _
    · exact h.stands_token hapart hsource hnew hleft

end SchemaToGo.Go
