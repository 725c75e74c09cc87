import SchemaToGo.Proofs.Go.Token.Reached
import Mathlib.Data.List.DropRight
set_option autoImplicit false

/-!
# Nothing is lost

A text consists of its tokens as they are written, with blanks between them.  Every token knows where
it stands and how many line breaks are among the blanks before it, and words, numbers and comments
are as long as they can be: `scan_lossless`.  The invariant is that of `Reached`: the longest match
is known of every token but the last one, and of this one as soon as something follows it.
-/

namespace SchemaToGo.Go

/-! ## Places -/

/-- The place after a text: the line breaks in it are counted, and the characters after the last
one. -/
def Place.behind (t : List Char) : Place :=
  ⟨1 + t.count '\n', 1 + (t.rtakeWhile (· ≠ '\n')).length⟩

theorem Place.start_advance (t : List Char) : Place.start.advance t = Place.behind t := by
  induction t using List.reverseRecOn with
  | nil => rfl
  | append_singleton t c ih =>
    rw [Place.advance_append, ih]
    show (Place.behind t).after c = _
    unfold Place.after Place.behind
    rw [List.count_append, List.count_singleton]
    split
    · next hc =>
      subst hc
      rw [List.rtakeWhile_concat_neg _ _ _ (by decide)]
      rfl
    · next hc =>
      have hcolumn : (t ++ [c]).rtakeWhile (fun x => decide (x ≠ '\n')) = _ :=
        List.rtakeWhile_concat_pos _ _ _ (decide_eq_true hc)
      rw [hcolumn, List.length_append, beq_eq_false_iff_ne.mpr hc]
      rfl

/-! ## Longest matches -/

/-- A stretch of characters that satisfy a test does not go on behind a text that is followed by one
that does not. -/
theorem prefix_of_stop {p : Char → Bool} {source after text : List Char}
    (htext : ∀ c ∈ text, p c = true) (hafter : ∀ c ∈ after.head?, p c = false)
    (h : text <+: source ++ after) : text <+: source := by
  rcases List.prefix_or_prefix_of_prefix h (List.prefix_append source after) with h | ⟨more, rfl⟩
  · exact h
  · cases more with
    | nil => simp
    | cons c more =>
      obtain ⟨rest, rfl⟩ := (List.prefix_append_right_inj source).mp h
      have hc := htext c (List.mem_append_right _ List.mem_cons_self)
      rw [hafter c rfl] at hc
      cases hc

namespace Kind

/-- The text could be written for a token of the same sort: another word, another number or another
comment.  Other tokens show by themselves where they end. -/
def CouldBe : Kind → List Char → Prop
  | word _, text => (word text).Spelled
  | int _, text => (int text).Spelled
  | comment _, text => (comment text).Spelled
  | _, _ => False

/-- What is not continued is the longest match. -/
theorem EndsBefore.longest {k : Kind} {source after text : List Char}
    (h : k.EndsBefore after.head?) (hk : k.CouldBe text) (htext : text <+: source ++ after) :
    text <+: source := by
  cases k with
  | word _ => exact prefix_of_stop (fun c hc => isWordChar_of_mem hk hc) h htext
  | int _ => exact prefix_of_stop hk.2 h htext
  | comment _ =>
    obtain ⟨body, rfl, hbody⟩ := hk
    refine prefix_of_stop (p := fun c => decide (c ≠ '\n')) (fun c hc => ?_) (fun c hc => ?_) htext
    · refine decide_eq_true ?_
      rintro rfl
      simp [hbody] at hc
    · rw [h c hc]
      rfl
  | str _ | punct _ | semicolon _ => exact hk.elim

/-- The token is a raw string. -/
def isRaw : Kind → Bool
  | str ('`' :: _) => true
  | _ => false

/-- A token is spelled as in the text, a raw string without the carriage returns. -/
theorem IsSource.spelling_eq {k : Kind} {source : List Char} (h : k.IsSource source) :
    k.spelling = if k.isRaw then source.filter (· ≠ '\r') else source := by
  obtain ⟨c, tail, rfl, hlexeme⟩ := h
  have hok := hlexeme .start [] k.endsBefore_none
  by_cases hc : c = '`'
  · subst hc
    unfold lexeme rawLexeme at hok
    rw [if_neg (by decide), if_pos rfl] at hok
    split at hok
    · cases hok
    · next body left _ =>
      obtain ⟨rfl, hsource, rfl⟩ := Lexeme.mk.inj (Except.ok.inj hok)
      rw [← hsource]
      simp [spelling, isRaw]
  · have hspelling := (source_eq_spelling hok hc).2
    have hraw : k.isRaw = false := by
      unfold isRaw
      split
      · next literal =>
        exact absurd (List.cons.inj hspelling).1 hc
      · rfl
    rw [hraw]
    exact hspelling.symm

theorem Spelled.ne_inserted {k : Kind} (h : k.Spelled) : k ≠ .semicolon true := by
  rintro rfl
  cases h

end Kind

/-! ## Occurrences -/

/-- A token as it stands in a text: the blanks before it, and what is written for it. -/
structure Occurrence where
  gap : List Char
  source : List Char
  token : Token

namespace Occurrence

def text (o : Occurrence) : List Char := o.gap ++ o.source

/-- A token stands between a text before it and a text after it. -/
structure Fits (o : Occurrence) (before after : List Char) : Prop where
  blank : ∀ c ∈ o.gap, c ∈ [' ', '\t', '\r', '\n']
  spelled : o.token.kind.Spelled
  spelling : o.token.kind.spelling =
    if o.token.kind.isRaw then o.source.filter (· ≠ '\r') else o.source
  place : o.token.place = Place.behind (before ++ o.gap)
  newlines : o.token.newlines = o.gap.count '\n'
  longest : ∀ text, o.token.kind.CouldBe text → text <+: o.source ++ after → text <+: o.source

end Occurrence

/-- The text as tokens and blanks. -/
def textOf (os : List Occurrence) : List Char := os.flatMap Occurrence.text

/-- The tokens that are written. -/
def written (ts : List Token) : List Token := ts.filter fun x => x.kind ≠ .semicolon true

theorem written_append (ts us : List Token) : written (ts ++ us) = written ts ++ written us :=
  List.filter_append ..

theorem written_insertion (s : ScanState) (place : Place) : written (s.insertion place) = [] := by
  unfold ScanState.insertion
  split <;> rfl

/-- What the scanner has come across: its tokens in their places, and the blanks after the last
one. -/
structure Covers (t : List Char) (ts : List Token) (feeds : Nat) (last : Option Kind)
    (os : List Occurrence) (gap : List Char) : Prop where
  text : t = textOf os ++ gap
  blank : ∀ c ∈ gap, c ∈ [' ', '\t', '\r', '\n']
  tokens : os.map Occurrence.token = written ts
  feeds : feeds = gap.count '\n'
  fits : ∀ rest, Apart last rest → ∀ front o back, os = front ++ o :: back →
    o.Fits (textOf front) (textOf back ++ gap ++ rest)

namespace Covers

variable {t : List Char} {ts ts' : List Token} {feeds : Nat} {last : Option Kind}
  {os : List Occurrence} {gap : List Char}

/-- One more blank. -/
theorem blank_concat (h : Covers t ts feeds last os gap) {c : Char}
    (hc : c ∈ [' ', '\t', '\r', '\n']) (hapart : ∀ rest, Apart last (c :: rest))
    (hts : written ts' = written ts) :
    Covers (t ++ [c]) ts' (feeds + [c].count '\n') none os (gap ++ [c]) where
  text := by rw [h.text, List.append_assoc]
  blank x hx := by
    rcases List.mem_append.mp hx with hx | hx
    · exact h.blank x hx
    · rwa [List.mem_singleton.mp hx]
  tokens := by rw [h.tokens, hts]
  feeds := by rw [List.count_append, h.feeds]
  fits rest _ front o back hos := by
    have hfits := h.fits (c :: rest) (hapart rest) front o back hos
    rwa [List.append_cons, List.append_assoc (textOf back)] at hfits

/-- One more token. -/
theorem token_concat (h : Covers t ts feeds last os gap) {k : Kind} {source : List Char}
    (hapart : Apart last source) (hsource : k.IsSource source)
    (hts : written ts' = written ts ++ [⟨k, Place.start.advance t, feeds⟩]) :
    Covers (t ++ source) ts' 0 (some k)
      (os ++ [⟨gap, source, ⟨k, Place.start.advance t, feeds⟩⟩]) [] where
  text := by
    unfold textOf
    rw [List.flatMap_append, h.text]
    simp [textOf, Occurrence.text]
  blank := nofun
  tokens := by rw [List.map_append, h.tokens, hts]; rfl
  feeds := rfl
  fits rest hrest front o back hos := by
    obtain ⟨c, tail, rfl, _⟩ := hsource.exists_cons
    rcases List.eq_nil_or_concat' back with rfl | ⟨back, o', rfl⟩
    · -- the new token: what follows does not continue it
      obtain ⟨rfl, ho⟩ := List.append_inj' hos rfl
      obtain rfl := (List.cons.inj ho).1
      exact {
        blank := h.blank
        spelled := hsource.spelled
        spelling := hsource.spelling_eq
        place := by rw [← h.text]; exact Place.start_advance t
        newlines := h.feeds
        longest := fun text htext => (hrest k rfl).longest htext }
    · -- an earlier token: the new one follows it
      rw [← List.cons_append, ← List.append_assoc] at hos
      obtain ⟨rfl, ho⟩ := List.append_inj' hos rfl
      obtain rfl := (List.cons.inj ho).1
      have hfits := h.fits (c :: tail ++ rest) (hapart.same_head (tail ++ rest)) front o back rfl
      have hafter : textOf (back ++ [⟨gap, c :: tail, ⟨k, Place.start.advance t, feeds⟩⟩]) ++ [] =
          textOf back ++ gap ++ c :: tail := by
        simp [textOf, Occurrence.text]
      rwa [hafter, List.append_assoc]

end Covers

/-- Wherever the scanner has come to, it has found the tokens of the text before. -/
theorem Reached.covers {t : List Char} {ts : List Token} {s : ScanState} {last : Option Kind}
    (h : Reached t ts s last) : ∃ os gap, Covers t ts s.newlines last os gap := by
  induction h with
  | start =>
    refine ⟨[], [], rfl, nofun, rfl, rfl, fun _ _ front o back hos => ?_⟩
    exact absurd hos.symm (List.append_ne_nil_of_right_ne_nil _ (List.cons_ne_nil _ _))
  | @space t ts s last c _ hapart hc ih =>
    obtain ⟨os, gap, hcovers⟩ := ih
    have hblank : c ∈ [' ', '\t', '\r', '\n'] := by
      simp only [isSpace, Bool.or_eq_true, beq_iff_eq] at hc
      simp only [List.mem_cons, List.not_mem_nil, or_false]
      tauto
    have hfeed : [c].count '\n' = 0 := by
      rw [List.count_singleton, if_neg]
      rintro hfeed
      rw [beq_iff_eq.mp hfeed] at hc
      cases hc
    have hnext := hcovers.blank_concat hblank (fun rest => hapart.same_head rest) rfl
    rw [hfeed] at hnext
    exact ⟨os, gap ++ [c], hnext⟩
  | @feed t ts s last _ ih =>
    obtain ⟨os, gap, hcovers⟩ := ih
    refine ⟨os, gap ++ ['\n'], hcovers.blank_concat (by simp) (Apart.feed last) ?_⟩
    rw [written_append, written_insertion, List.append_nil]
  | @token t source ts s last k h hapart hsource ih =>
    obtain ⟨os, gap, hcovers⟩ := ih
    refine ⟨_, _, hcovers.token_concat hapart hsource ?_⟩
    have hinserted : written (if k.isComment then s.insertion (s.place.advance source) else []) =
        [] := by
      split
      · exact written_insertion _ _
      · rfl
    rw [written_append, written_append, hinserted, ← h.place, List.nil_append]
    unfold written
    rw [List.filter_singleton, decide_eq_true hsource.spelled.ne_inserted]
    rfl

/-- The scanner loses nothing.  A text that is scanned consists, in order, of what is written for
its tokens, the inserted semicolons apart, with blanks between them; what is written for a token is
its spelling, and with carriage returns in a raw string.  The place of a token is that of its first
character, it counts the line breaks among the blanks before it, and it is the longest match there. -/
theorem scan_lossless {t : List Char} {r : Scanned} (h : scan t = .ok r) :
    ∃ os gap, t = textOf os ++ gap ∧ (∀ c ∈ gap, c ∈ [' ', '\t', '\r', '\n']) ∧
      os.map Occurrence.token = written r.tokens ∧
      ∀ front o back, os = front ++ o :: back → o.Fits (textOf front) (textOf back ++ gap) := by
  obtain ⟨ts, s, last, hreached, rfl⟩ := exists_reached_of_scan h
  obtain ⟨os, gap, hcovers⟩ := hreached.covers
  refine ⟨os, gap, hcovers.text, hcovers.blank, ?_, fun front o back hos => ?_⟩
  · rw [written_append, written_insertion, List.append_nil]
    exact hcovers.tokens
  · have hfits := hcovers.fits [] (.nil last) front o back hos
    rwa [List.append_nil] at hfits

/-- A comment after a word, a written semicolon, and a raw string over two lines. -/
theorem scan_lossless_rawString :
    let t := "x // c\n;\n `a\r\nb` 12\n".toList
    let ts : List Token := [⟨.word "x".toList, ⟨1, 1⟩, 0⟩, ⟨.semicolon true, ⟨1, 7⟩, 0⟩,
      ⟨.comment "// c".toList, ⟨1, 3⟩, 0⟩, ⟨.semicolon false, ⟨2, 1⟩, 1⟩,
      ⟨.str "`a\nb`".toList, ⟨3, 2⟩, 1⟩, ⟨.int "12".toList, ⟨4, 4⟩, 0⟩,
      ⟨.semicolon true, ⟨4, 6⟩, 0⟩]
    scan t = .ok ⟨ts, ⟨5, 1⟩⟩ ∧ ∃ os gap, t = textOf os ++ gap ∧
      (∀ c ∈ gap, c ∈ [' ', '\t', '\r', '\n']) ∧ os.map Occurrence.token = written ts ∧
      ∀ front o back, os = front ++ o :: back → o.Fits (textOf front) (textOf back ++ gap) := by
  intro t ts
  have hscan : scan t = .ok ⟨ts, ⟨5, 1⟩⟩ := toOption_eq_some (by decide +kernel)
  exact ⟨hscan, scan_lossless hscan⟩

end SchemaToGo.Go
