import SchemaToGo.Proofs.Go.File.Refusal
import SchemaToGo.Proofs.Go.Token.Reached
set_option autoImplicit false

/-!
# Where a text is refused

The place of an error lies in the text or at its end, and the text before it can be continued to one
that is formatted, with two exceptions.  A semicolon that is inserted before a comment stands behind
the comment, where it can no longer be avoided.  And the text is scanned as a whole before it is
parsed, so an error of the scanner comes before errors of the parser that stand earlier in the text.
Main statement: `format_refusal`.

The parser tells how its tokens can go on (`Parse.items_stopsAt`), and a text that brings these
tokens goes on with the others, with blanks between them: `canGoOn_of_brings`.

Normative source: SPEC_FULL.md section 4.4, on syntax errors.
-/

namespace SchemaToGo.Go

open Grammar Parse

/-! ## Texts that can go on -/

/-- The text can be continued to one that is formatted. -/
def CanGoOn (t : List Char) : Prop := ∃ more u, format (String.ofList (t ++ more)) = .ok u

theorem CanGoOn.of_append {t more : List Char} (h : CanGoOn (t ++ more)) : CanGoOn t := by
  obtain ⟨rest, u, hu⟩ := h
  rw [List.append_assoc] at hu
  exact ⟨_, u, hu⟩

/-- A text is formatted if its tokens are those of a file. -/
theorem exists_format_of_isFile {t : List Char} {r : Scanned} (hr : scan t = .ok r)
    (hfile : IsFile (r.tokens.map Token.kind)) : ∃ u, format (String.ofList t) = .ok u := by
  have hwords : ∀ x ∈ r.tokens, ∀ word, x.kind = .word word → isWord word = true := by
    intro x hx word hword
    rcases spelled_of_scan hr x hx with hsemicolon | hspelled
    · rw [hword] at hsemicolon
      cases hsemicolon
    · rw [hword] at hspelled
      exact hspelled
  obtain ⟨its, hits⟩ := exists_readsFile rfl hwords hfile
  refine ⟨_, format_eq_ok_iff.mpr ⟨its, ?_, rfl⟩⟩
  rw [String.toList_ofList]
  exact readFile_eq_ok_iff.mpr ⟨r, hr, hits⟩

/-- Tokens in a row with a blank behind each of them. -/
def spacedText (ks : List Kind) : List Char := ks.flatMap fun k => k.spelling ++ [' ']

theorem cuts_spacedText {ks : List Kind} (h : Plain ks) (rest : List Char) :
    Cuts (spacedText ks ++ rest) (ks.map Mark.token) rest := by
  induction ks with
  | nil => exact .done
  | cons k ks ih =>
    obtain ⟨hspelled, hcomment⟩ := h k List.mem_cons_self
    have hrest := ih fun l hl => h l (List.mem_cons_of_mem _ hl)
    have htext : spacedText (k :: ks) ++ rest = k.spelling ++ ' ' :: (spacedText ks ++ rest) := by
      simp [spacedText]
    rw [htext]
    have hends : k.EndsBefore (' ' :: (spacedText ks ++ rest)).head? :=
      Kind.endsBefore_space hcomment
    exact (cuts_spelling hspelled hends).append (.space rfl hrest)

/-- In a row of tokens that ends in a semicolon, no semicolon is inserted. -/
theorem withSemicolons_of_plain {ks : List Kind} (h : Plain ks) (due : Bool) :
    withSemicolons due ((ks ++ [Kind.semicolon false]).map Mark.token) =
      ks ++ [.semicolon false] := by
  induction ks generalizing due with
  | nil => cases due <;> rfl
  | cons k ks ih =>
    have hcomment := (h k List.mem_cons_self).2
    have hrest := ih (fun l hl => h l (List.mem_cons_of_mem _ hl)) k.endsStatement
    show (if due && k.isComment then [Kind.semicolon true] else []) ++
      k :: withSemicolons k.endsStatement ((ks ++ [Kind.semicolon false]).map Mark.token) = _
    rw [hrest, hcomment, Bool.and_false]
    rfl

/-- A text can go on if the tokens that it brings can. -/
theorem canGoOn_of_brings {t : List Char} {ks more : List Kind} (h : Brings t ks)
    (hmore : Plain more) (hfile : LacksSemicolon false (ks ++ more)) : CanGoOn t := by
  obtain ⟨gap, ts, s, hts, hscan⟩ := h
  have hplain : Plain (more ++ [.semicolon false]) := hmore.append (.cons rfl rfl .nil)
  have hcuts := cuts_spacedText hplain []
  rw [List.append_nil] at hcuts
  obtain ⟨r, hr, hglances⟩ := exists_scanFrom_of_cuts hcuts s
  have hkinds := map_kind_of_glances hglances
  rw [withSemicolons_of_plain hmore] at hkinds
  have hwhole := hscan (spacedText (more ++ [.semicolon false]))
  rw [hr] at hwhole
  have hderived : IsFile ((ts ++ r.tokens).map Token.kind) := by
    rw [List.map_append, hts, hkinds, ← List.append_assoc]
    exact hfile
  obtain ⟨u, hu⟩ := exists_format_of_isFile hwhole hderived
  exact ⟨_, u, hu⟩

/-! ## Refusals -/

/-- The text up to a place ends in a comment.  The semicolon that is inserted before the comment
stands at its end, and the text before the comment can go on. -/
def BehindComment (t before : List Char) : Prop :=
  ∃ head text r used left, before = head ++ text ∧ CanGoOn head ∧ scan t = .ok r ∧
    r.tokens = used ++ ⟨.semicolon true, Place.start.advance before, 0⟩ ::
      ⟨.comment text, Place.start.advance head, 0⟩ :: left

/-- The scanner refuses the text, and the text up to the error is itself refused at an earlier
place.  If the error is in a string, quotes are added to close it. -/
def Overtaken (t before : List Char) (e : FormatError) : Prop :=
  scan t = .error e ∧ ∃ closing e' earlier later, closing ∈ [[], ['"', '"']] ∧
    format (String.ofList (before ++ closing)) = .error e' ∧ before = earlier ++ later ∧
    later ≠ [] ∧ e'.place = Place.start.advance earlier

section

variable {t : List Char} {ts : List Token} {s : ScanState} {last : Option Kind} {e : FormatError}

/-- A text that is scanned can go on where it is refused, if that is at its end.  Otherwise it is
refused at a token that it brings, and every text that brings the tokens before can go on. -/
theorem Reached.canGoOn_or_stands (h : Reached t ts s last)
    (he : parse ⟨ts ++ s.insertion s.place, s.place⟩ = .error e) :
    (CanGoOn t ∧ e.place = s.place) ∨ ∃ used left, ts = used ++ left ∧ Stands t last used left ∧
      e.place = placeOf s.place left ∧
      ∀ front, Brings front (used.map Token.kind) → CanGoOn front := by
  obtain ⟨used, left, more, htokens, hplace, hmore, hfile⟩ := items_stopsAt he
  have hgoes : ∀ front, Brings front (used.map Token.kind) → CanGoOn front :=
    fun front hfront => canGoOn_of_brings hfront hmore hfile
  dsimp only at htokens hplace
  rcases append_eq_append_of_ne_nil htokens with ⟨rest, hrest, hts, rfl⟩ | ⟨rest, rfl, hnew⟩
  · refine .inr ⟨used, rest, hts, h.stands hts hrest, ?_, hgoes⟩
    obtain ⟨x, rest, rfl⟩ := List.exists_cons_of_ne_nil hrest
    exact hplace
  · left
    cases left with
    | nil =>
      rw [List.append_nil] at hnew
      have hbrings := h.brings_ended s.place
      rw [hnew] at hbrings
      exact ⟨hgoes t hbrings, hplace⟩
    | cons x left =>
      cases hdue : s.due with
      | false =>
        rw [ScanState.insertion, hdue] at hnew
        exact absurd (List.append_eq_nil_iff.mp hnew.symm).2 (List.cons_ne_nil x left)
      | true =>
        rw [insertion_of_due hdue] at hnew
        obtain ⟨rfl, hx⟩ := eq_nil_of_singleton_eq_append hnew (List.cons_ne_nil x left)
        cases hx
        have hbrings := h.brings (h.of_due hdue).2
        rw [List.append_nil] at hgoes
        exact ⟨hgoes t hbrings, hplace⟩

end

/-- A text is refused by the scanner, or else by the parser. -/
theorem format_eq_error_iff {s : String} {e : FormatError} : format s = .error e ↔
    scan s.toList = .error e ∨ ∃ r, scan s.toList = .ok r ∧ parse r = .error e := by
  unfold format readFile
  rw [bind_eq_error_iff, bind_eq_error_iff]
  refine or_iff_left ?_
  rintro ⟨_, _, h⟩
  cases h

/-- The tokens of a text are refused where the text before can go on, or behind a comment. -/
theorem exists_before_of_parse {t : List Char} {r : Scanned} {e : FormatError}
    (hr : scan t = .ok r) (he : parse r = .error e) :
    ∃ before after, t = before ++ after ∧ e.place = Place.start.advance before ∧
      (CanGoOn before ∨ BehindComment t before) := by
  obtain ⟨ts, s, last, hreached, rfl⟩ := exists_reached_of_scan hr
  rcases hreached.canGoOn_or_stands he with ⟨hgo, hplace⟩ |
    ⟨used, left, hts, hstands, hplace, hgoes⟩
  · exact ⟨t, [], (List.append_nil t).symm, by rw [hplace, hreached.place], .inl hgo⟩
  · cases hstands with
    | @here front back x left ht _ hbrings hx =>
      exact ⟨front, back, ht, hplace.trans hx, .inl (hgoes front hbrings)⟩
    | @behind front comment back left ht _ _ hbrings =>
      refine ⟨front ++ comment, back, ht, hplace, .inr ?_⟩
      refine ⟨front, comment, _, used, left ++ s.insertion s.place, rfl, hgoes front hbrings, hr,
        ?_⟩
      simp [hts]

/-- An error of the scanner stands where the text before can go on, or it comes before an error of
the parser that stands earlier. -/
theorem exists_before_of_scan {t : List Char} {e : FormatError} (he : scan t = .error e) :
    ∃ before after, t = before ++ after ∧ e.place = Place.start.advance before ∧
      (CanGoOn before ∨ Overtaken t before e) := by
  obtain ⟨before, after, closing, ts, s, last, ht, hplace, hclosing, hreached, hlast⟩ :=
    (halts_of_scan he).exists_closed
  refine ⟨before, after, ht, hplace, ?_⟩
  have hscan := hreached.scan_eq_ok
  cases hparse : parse ⟨ts ++ s.insertion s.place, s.place⟩ with
  | ok its =>
    left
    have hread : readFile (before ++ closing) = .ok its :=
      bind_eq_ok_iff.mpr ⟨_, hscan, hparse⟩
    refine ⟨closing, _, format_eq_ok_iff.mpr ⟨its, ?_, rfl⟩⟩
    rwa [String.toList_ofList]
  | error e' =>
    have hformat : format (String.ofList (before ++ closing)) = .error e' := by
      refine format_eq_error_iff.mpr (.inr ⟨_, ?_, hparse⟩)
      rwa [String.toList_ofList]
    rcases hreached.canGoOn_or_stands hparse with ⟨hgo, _⟩ |
      ⟨used, left, _, hstands, hplace', hgoes⟩
    · exact .inl hgo.of_append
    · cases hstands with
      | here hsplit _ hbrings hx =>
        rcases append_eq_append_of_ne_nil hsplit with ⟨later, hlater, hbefore, _⟩ | ⟨rest, rfl, _⟩
        · exact .inr ⟨he, closing, e', _, later, hclosing, hformat, hbefore, hlater,
            hplace'.trans hx⟩
        · exact .inl (hgoes _ hbrings).of_append
      | @behind front comment back left hsplit hend hback hbrings =>
        rcases append_eq_append_of_ne_nil hsplit with ⟨later, hlater, hbefore, _⟩ |
          ⟨rest, _, hrest⟩
        · exact .inr ⟨he, closing, e', _, later, hclosing, hformat, hbefore, hlater, hplace'⟩
        · -- a comment goes on to the end of its line, and what closes a string is no line break
          exfalso
          cases back with
          | nil => exact absurd (hlast _ (hend rfl)) (by simp [Kind.isComment])
          | cons c back =>
            obtain rfl : c = '\n' := hback _ rfl c rfl
            have hmem : '\n' ∈ closing := by simp [hrest]
            simp only [List.mem_cons, List.not_mem_nil, or_false] at hclosing
            rcases hclosing with rfl | rfl <;> simp at hmem

/-- A text is refused at a place that lies in the text or at its end.  The text before it can be
continued to one that is formatted, unless the refused token is a semicolon that is inserted before
a comment, or the error is one of the scanner and the parser refuses the text earlier. -/
theorem format_refusal {s : String} {e : FormatError} (h : format s = .error e) :
    ∃ before after, s.toList = before ++ after ∧ e.place = Place.start.advance before ∧
      (CanGoOn before ∨ BehindComment s.toList before ∨ Overtaken s.toList before e) := by
  rcases format_eq_error_iff.mp h with hscan | ⟨r, hr, hparse⟩
  · obtain ⟨before, after, hs, hplace, hgo⟩ := exists_before_of_scan hscan
    exact ⟨before, after, hs, hplace, hgo.imp_right .inr⟩
  · obtain ⟨before, after, hs, hplace, hgo⟩ := exists_before_of_parse hr hparse
    exact ⟨before, after, hs, hplace, hgo.imp_right .inl⟩

/-- A struct that breaks off in the length of an array. -/
theorem format_refusal_array :
    let s := "package p\ntype A struct \x7b\n\tB string // c\n\tC [ "
    let e : FormatError := ⟨⟨4, 6⟩, .expectedLength⟩
    format s = .error e ∧
      ∃ before after, s.toList = before ++ after ∧ e.place = Place.start.advance before ∧
        (CanGoOn before ∨ BehindComment s.toList before ∨ Overtaken s.toList before e) := by
  intro s e
  have hs : format s = .error e := by decide +kernel
  exact ⟨hs, format_refusal hs⟩

/-- The scanner does not know the last character, and the parser knows no declaration without a
package clause before it. -/
example :
    format "type A int @" = .error ⟨⟨1, 12⟩, .unexpectedCharacter '@'⟩ ∧
      format "type A int " = .error ⟨⟨1, 1⟩, .expectedPackage⟩ := by
  decide +kernel

/-! ## Behind a comment -/

/-- The tokens of a text that is formatted are those of a file. -/
theorem exists_isFile_of_format {s u : String} (h : format s = .ok u) :
    ∃ r, scan s.toList = .ok r ∧ IsFile (r.tokens.map Token.kind) := by
  obtain ⟨its, hread, _⟩ := format_eq_ok_iff.mp h
  obtain ⟨r, hr, hits⟩ := readFile_eq_ok_iff.mp hread
  exact ⟨r, hr, derived_of_readsItems hits⟩

/-- Behind a comment no text goes on if the semicolon before the comment does not fit. -/
theorem not_canGoOn_comment {t : List Char} {ms : List Mark} (ht : ∀ rest, Cuts (t ++ rest) ms rest)
    (hdue : (Spot.initial.passAll ms).due = true)
    (hnone : ∀ ks, ¬ IsFile ((Spot.initial.emitAll ms).map Glance.kind ++ .semicolon true :: ks))
    (text : List Char) : ¬ CanGoOn (t ++ '/' :: '/' :: text) := by
  rintro ⟨more, u, hu⟩
  obtain ⟨r, hr, hfile⟩ := exists_isFile_of_format hu
  rw [String.toList_ofList, List.append_assoc] at hr
  obtain ⟨ts, s, hscan, hts, hs⟩ := scanFrom_of_cuts (ht ('/' :: '/' :: (text ++ more))) .initial
  have hsdue : s.due = true := (congrArg Spot.due hs).trans hdue
  obtain ⟨l, hl, hcomment⟩ : ∃ l, lexeme s.place '/' ('/' :: (text ++ more)) = .ok l ∧
      l.kind.isComment = true := ⟨_, rfl, rfl⟩
  rw [scanFrom_lexeme s hl, hcomment, insertion_of_due hsdue, Scanned.after_after] at hscan
  have htokens : ∃ others, r.tokens.map Token.kind =
      ts.map Token.kind ++ .semicolon true :: others := by
    have hboth := hr.symm.trans hscan
    cases hlater : scanFrom ⟨s.place.advance l.source, 0, l.kind.endsStatement⟩ l.rest with
    | error e => rw [hlater] at hboth; cases hboth
    | ok later =>
      rw [hlater] at hboth
      cases hboth
      exact ⟨l.kind :: later.tokens.map Token.kind, by simp⟩
  have hkinds : ts.map Token.kind = (Spot.initial.emitAll ms).map Glance.kind := by
    have hglances : ts.map Token.glance = Spot.initial.emitAll ms := hts
    rw [← hglances, List.map_map]
    rfl
  obtain ⟨others, htokens⟩ := htokens
  rw [htokens, hkinds] at hfile
  exact hnone others hfile

/-- A type starts with a token other than a semicolon. -/
theorem exists_cons_of_isType {ks : List Kind} (h : IsType ks) :
    ∃ k rest, ks = k :: rest ∧ ∀ inserted, k ≠ .semicolon inserted := by
  cases h with
  | name h => cases h <;> exact ⟨_, _, rfl, nofun⟩
  | _ => exact ⟨_, _, rfl, nofun⟩

/-- The name of a declaration goes on with a type. -/
theorem not_isFile_of_missingType {package name : List Char} {ks : List Kind} :
    ¬ IsFile (.word "package".toList :: .word package :: .semicolon true ::
      .word "type".toList :: .word name :: .semicolon true :: ks) := by
  rintro (_ | ⟨_, _, ⟨⟩, hitems⟩)
  generalize hls : Kind.word "type".toList :: .word name :: .semicolon true :: ks = ls at hitems
  cases hitems with
  | nil => cases hls
  | comment => cases hls
  | type _ htype _ _ =>
    obtain ⟨k, rest, rfl, hk⟩ := exists_cons_of_isType htype
    cases hls
    exact hk true rfl

/-- Before a comment a semicolon stands for the missing type.  It is refused behind the comment,
where no continuation is left that supplies the type. -/
theorem format_misplaced :
    let s := "package p\ntype A // c\n"
    let e : FormatError := ⟨⟨2, 12⟩, .expectedType⟩
    format s = .error e ∧ ∀ before after, s.toList = before ++ after →
      e.place = Place.start.advance before → ¬ CanGoOn before := by
  intro s e
  refine ⟨by decide +kernel, fun before after hs hplace => ?_⟩
  have hplaces : ∀ n < s.toList.length + 1,
      e.place = Place.start.advance (s.toList.take n) → n = 21 := by decide +kernel
  have hbefore : before = "package p\ntype A // c".toList := by
    have htake : s.toList.take before.length = before := by rw [hs, List.take_left]
    have hlength : before.length ≤ s.toList.length := by
      rw [hs, List.length_append]
      exact Nat.le_add_right _ _
    have hall := hplaces before.length (Nat.lt_succ_of_le hlength) (by rw [htake]; exact hplace)
    rw [← htake, hall]
    decide
  rw [hbefore]
  have hclause : Plain [.word "package".toList] := .word (by decide) .nil
  have hspelled : (Kind.word ['p']).Spelled := (by decide : isWord ['p'] = true)
  have hdecl : Plain [.word "type".toList, .word ['A']] :=
    .word (by decide) (.word (by decide) .nil)
  have hcuts : ∀ rest, Cuts ("package p\ntype A ".toList ++ rest)
      [.token (.word "package".toList), .token (.word ['p']), .feed,
        .token (.word "type".toList), .token (.word ['A'])] rest := by
    intro rest
    have hname : Cuts ('p' :: '\n' :: (spacedText [.word "type".toList, .word ['A']] ++ rest))
        [.token (.word ['p'])] ('\n' :: (spacedText [.word "type".toList, .word ['A']] ++ rest)) :=
      cuts_spelling hspelled (Kind.endsBefore_feed _)
    exact (cuts_spacedText hclause _).append (hname.append (.feed (cuts_spacedText hdecl rest)))
  exact not_canGoOn_comment hcuts (by decide) (fun ks => not_isFile_of_missingType) [' ', 'c']

end SchemaToGo.Go
