import SchemaToGo.Proofs.Go.File.Marks
set_option autoImplicit false

/-!
# Carriage returns before line breaks

Where a line ends in a carriage return and a line feed, the carriage return is a blank between
tokens, a blank at the end of a comment, or a character that is no part of a raw string.  Before a
line break no other token can go on, with the carriage return or without it.  So a text with such
carriage returns is cut exactly if the text without them is, and into the same marks, the blanks at
the ends of comments apart: `Returned.exists_cuts` and `Returned.exists_cuts_without`.
-/

namespace SchemaToGo.Go

/-- The second text is the first one with carriage returns put before some of its line breaks. -/
inductive Returned : List Char → List Char → Prop
  | nil : Returned [] []
  | cons {t u : List Char} (c : Char) : Returned t u → Returned (c :: t) (c :: u)
  | feed {t u : List Char} : Returned t u → Returned ('\n' :: t) ('\r' :: '\n' :: u)

/-- Two computations give results that are alike, or both give none. -/
inductive Together {ε α : Type} (R : α → α → Prop) : Except ε α → Except ε α → Prop
  | results {a b : α} : R a b → Together R (.ok a) (.ok b)
  | errors (e e' : ε) : Together R (.error e) (.error e')

namespace Together

variable {ε α : Type} {R : α → α → Prop} {r r' : Except ε α}

theorem exists_right (h : Together R r r') {a : α} (hr : r = .ok a) :
    ∃ b, r' = .ok b ∧ R a b := by
  cases h with
  | results hab =>
    cases hr
    exact ⟨_, rfl, hab⟩
  | errors => cases hr

theorem exists_left (h : Together R r r') {b : α} (hr : r' = .ok b) :
    ∃ a, r = .ok a ∧ R a b := by
  cases h with
  | results hab =>
    cases hr
    exact ⟨_, rfl, hab⟩
  | errors => cases hr

/-- What is made of results that are alike. -/
theorem map {β : Type} {S : β → β → Prop} {f : α → β} (h : Together R r r')
    (hf : ∀ {a b}, R a b → S (f a) (f b)) : Together S (r.map f) (r'.map f) := by
  cases h with
  | results hab => exact .results (hf hab)
  | errors e e' => exact .errors e e'

end Together

/-! ## Stretches of a text -/

namespace Returned

variable {t u : List Char} {p : Char → Bool}

theorem refl (t : List Char) : Returned t t := by
  induction t with
  | nil => exact .nil
  | cons c rest ih => exact .cons c ih

/-- A stretch that line ends stop. -/
theorem stretch (hfeed : p '\n' = false) (hreturn : p '\r' = false) (h : Returned t u) :
    u.takeWhile p = t.takeWhile p ∧ Returned (t.dropWhile p) (u.dropWhile p) := by
  induction h with
  | nil => exact ⟨rfl, .nil⟩
  | @cons t u c h ih =>
    cases hc : p c with
    | true =>
      simp only [List.takeWhile_cons, List.dropWhile_cons, hc, if_true]
      exact ⟨congrArg (c :: ·) ih.1, ih.2⟩
    | false =>
      simp only [List.takeWhile_cons, List.dropWhile_cons, hc]
      exact ⟨rfl, .cons c h⟩
  | feed h =>
    simp only [List.takeWhile_cons, List.dropWhile_cons, hfeed, hreturn]
    exact ⟨rfl, .feed h⟩

/-- A stretch over line ends. -/
theorem stretch_over (hfeed : p '\n' = true) (hreturn : p '\r' = true) (h : Returned t u) :
    Returned (t.takeWhile p) (u.takeWhile p) ∧ Returned (t.dropWhile p) (u.dropWhile p) := by
  induction h with
  | nil => exact ⟨.nil, .nil⟩
  | @cons t u c h ih =>
    cases hc : p c with
    | true =>
      simp only [List.takeWhile_cons, List.dropWhile_cons, hc, if_true]
      exact ⟨.cons c ih.1, ih.2⟩
    | false =>
      simp only [List.takeWhile_cons, List.dropWhile_cons, hc]
      exact ⟨.nil, .cons c h⟩
  | feed h ih =>
    simp only [List.takeWhile_cons, List.dropWhile_cons, hfeed, hreturn, if_true]
    exact ⟨.feed ih.1, ih.2⟩

/-- The rest of a line.  Only a carriage return may follow it. -/
theorem line (h : Returned t u) :
    (u.takeWhile (· ≠ '\n') = t.takeWhile (· ≠ '\n') ∨
      u.takeWhile (· ≠ '\n') = t.takeWhile (· ≠ '\n') ++ ['\r']) ∧
    Returned (t.dropWhile (· ≠ '\n')) (u.dropWhile (· ≠ '\n')) := by
  induction h with
  | nil => exact ⟨.inl rfl, .nil⟩
  | @cons t u c h ih =>
    by_cases hc : c = '\n'
    · subst hc
      exact ⟨.inl rfl, .cons _ h⟩
    · simp only [List.takeWhile_cons, List.dropWhile_cons, hc, ne_eq, not_false_eq_true,
        decide_true, if_true, List.cons_append]
      exact ⟨ih.1.imp (congrArg (c :: ·)) (congrArg (c :: ·)), ih.2⟩
  | feed h => exact ⟨.inr rfl, .cons _ h⟩

/-- Without carriage returns the texts are the same. -/
theorem filter_eq (h : Returned t u) : u.filter (· ≠ '\r') = t.filter (· ≠ '\r') := by
  induction h with
  | nil => rfl
  | cons c _ ih => simp only [List.filter_cons, ih]
  | feed _ ih => simp only [List.filter_cons, ih]; rfl

/-- Digits that have to follow, some of them or none. -/
theorem digits (base n : Nat) (h : Returned t u) :
    ((t.take n).length = n ∧ (t.take n).all (isDigitOf base) = true ↔
      (u.take n).length = n ∧ (u.take n).all (isDigitOf base) = true) ∧
    ((t.take n).length = n ∧ (t.take n).all (isDigitOf base) = true →
      u.take n = t.take n ∧ Returned (t.drop n) (u.drop n)) := by
  have hends : ∀ c ∈ ['\n', '\r'], isDigitOf base c = false := by
    intro c hc
    simp only [List.mem_cons, List.not_mem_nil, or_false] at hc
    unfold isDigitOf
    rcases hc with rfl | rfl <;> split <;> decide
  induction n generalizing t u with
  | zero => exact ⟨Iff.rfl, fun _ => ⟨rfl, h⟩⟩
  | succ n ih =>
    cases h with
    | nil => exact ⟨Iff.rfl, fun hlength => nomatch hlength.1⟩
    | @cons t u c h =>
      obtain ⟨hiff, hrest⟩ := ih h
      simp only [List.take_succ_cons, List.drop_succ_cons, List.length_cons, List.all_cons,
        Bool.and_eq_true, Nat.succ.injEq] at hiff hrest ⊢
      refine ⟨by tauto, fun ⟨hlength, _, hall⟩ => ?_⟩
      obtain ⟨htake, hdrop⟩ := hrest ⟨hlength, hall⟩
      exact ⟨congrArg (c :: ·) htake, hdrop⟩
    | feed h =>
      have hfeed := hends '\n' (by simp)
      have hreturn := hends '\r' (by simp)
      simp only [List.take_succ_cons, List.all_cons, hfeed, hreturn, Bool.false_and,
        Bool.false_eq_true, and_false, false_implies, and_self]

/-- An escape is none, or the same, in both texts. -/
theorem escape? (h : Returned t u) : (escape? t = none ∧ escape? u = none) ∨
    ∃ esc left right, Go.escape? t = some (esc, left) ∧ Go.escape? u = some (esc, right) ∧
      Returned left right := by
  cases h with
  | nil => exact .inl ⟨rfl, rfl⟩
  | feed => exact .inl ⟨rfl, rfl⟩
  | @cons t u c h =>
    unfold Go.escape?
    dsimp only
    cases escapeShape? c with
    | none => exact .inl ⟨rfl, rfl⟩
    | some shape =>
      obtain ⟨n, base⟩ := shape
      obtain ⟨hiff, hrest⟩ := h.digits base n
      dsimp only
      by_cases hdigits : (t.take n).length = n ∧ (t.take n).all (isDigitOf base) = true
      · obtain ⟨htake, hdrop⟩ := hrest hdigits
        rw [if_pos hdigits, if_pos (hiff.mp hdigits), htake]
        exact .inr ⟨_, _, _, rfl, rfl, hdrop⟩
      · rw [if_neg hdigits, if_neg (fun hright => hdigits (hiff.mpr hright))]
        exact .inl ⟨rfl, rfl⟩

end Returned

/-! ## Strings -/

/-- An interpreted string is none, or the same, in both texts: no line break is part of any. -/
theorem Returned.stringRest {t u : List Char} (h : Returned t u)
    (opening opening' here here' : Place) :
    Together (fun r r' => r'.1 = r.1 ∧ Returned r.2 r'.2) (stringRest opening here t)
      (Go.stringRest opening' here' u) := by
  induction hn : t.length using Nat.strongRecOn generalizing t u here here' with
  | ind n ih =>
    subst hn
    cases h with
    | nil =>
      rw [Go.stringRest, Go.stringRest]
      exact .errors _ _
    | @feed t u h =>
      rw [stringRest_feed, stringRest_char _ _ (by decide) (by decide) (by decide),
        stringRest_feed]
      exact .errors _ _
    | @cons t u c h =>
      by_cases hfeed : c = '\n'
      · subst hfeed
        rw [stringRest_feed, stringRest_feed]
        exact .errors _ _
      by_cases hquote : c = '"'
      · subst hquote
        rw [Go.stringRest, Go.stringRest, if_neg hfeed, if_neg hfeed, if_pos rfl, if_pos rfl]
        exact .results ⟨rfl, h⟩
      by_cases hslash : c = '\\'
      · subst hslash
        rcases h.escape? with ⟨ht, hu⟩ | ⟨esc, left, right, ht, hu, hrest⟩
        · rw [stringRest_unknown _ _ ht, stringRest_unknown _ _ hu]
          exact .errors _ _
        · have hlt : left.length < ('\\' :: t).length := Nat.lt_succ_of_lt (escape?_length ht)
          rw [stringRest_known _ _ ht, stringRest_known _ _ hu]
          apply (ih _ hlt hrest (here.advance ('\\' :: esc)) (here'.advance ('\\' :: esc)) rfl).map
          rintro r r' ⟨hbody, hleft⟩
          exact ⟨congrArg ('\\' :: esc ++ ·) hbody, hleft⟩
      · rw [stringRest_char _ _ hfeed hquote hslash, stringRest_char _ _ hfeed hquote hslash]
        apply (ih _ (Nat.lt_succ_self _) h (here.after c) (here'.after c) rfl).map
        rintro r r' ⟨hbody, hleft⟩
        exact ⟨congrArg (c :: ·) hbody, hleft⟩

/-! ## Lexemes -/

/-- The lexemes are of one kind, the blanks at the ends of comments apart, and so is what follows
them. -/
structure Lexeme.Alike (l l' : Lexeme) : Prop where
  kind : l'.kind.trimmed = l.kind.trimmed
  rest : Returned l.rest l'.rest

namespace Returned

variable {t u : List Char}

/-- A carriage return at the end of a comment is a blank. -/
theorem commentLexeme (h : Returned t u) (here here' : Place) :
    Together Lexeme.Alike (commentLexeme here t) (Go.commentLexeme here' u) := by
  have hslash : ∀ {c : Char} {rest : List Char} (here : Place), c ≠ '/' →
      Go.commentLexeme here (c :: rest) = .error ⟨here, .blockComment⟩ := by
    intro c rest here hc
    unfold Go.commentLexeme
    split
    · next heq =>
      cases heq
      exact absurd rfl hc
    · rfl
  cases h with
  | nil => exact .errors _ _
  | feed => exact .errors _ _
  | @cons t u c h =>
    by_cases hc : c = '/'
    · subst hc
      obtain ⟨htake, hdrop⟩ := (Returned.cons '/' h).line
      refine .results ⟨congrArg Kind.comment ?_, hdrop⟩
      rcases htake with htake | htake
      · rw [htake]
      · rw [htake, ← List.cons_append, Text.trimEnd_append_singleton, if_pos (by decide)]
    · rw [hslash _ hc, hslash _ hc]
      exact .errors _ _

/-- Carriage returns are no part of a raw string. -/
theorem rawLexeme (h : Returned t u) (here here' : Place) :
    Together Lexeme.Alike (rawLexeme here t) (Go.rawLexeme here' u) := by
  obtain ⟨hbody, hrest⟩ := h.stretch_over (p := fun c => decide (c ≠ '`')) rfl rfl
  have hstop : ∀ c ∈ (t.dropWhile (fun c => decide (c ≠ '`'))).head?, c = '`' := by
    intro c hc
    simpa using head?_dropWhile_eq_false c hc
  unfold Go.rawLexeme rawRest?
  generalize t.dropWhile (fun c => decide (c ≠ '`')) = left at hrest hstop
  generalize u.dropWhile (fun c => decide (c ≠ '`')) = right at hrest
  cases hrest with
  | nil => exact .errors _ _
  | feed => exact absurd (hstop _ rfl) (by decide)
  | cons c hrest =>
    refine .results ⟨?_, hrest⟩
    simp only [Kind.trimmed, hbody.filter_eq]

theorem stringLexeme (h : Returned t u) (here here' : Place) :
    Together Lexeme.Alike (stringLexeme here t) (Go.stringLexeme here' u) := by
  have hmap : ∀ (here : Place) (t : List Char), Go.stringLexeme here t =
      (Go.stringRest here (here.after '"') t).map
        fun r => ⟨.str ('"' :: r.1), '"' :: r.1, r.2⟩ := by
    intro here t
    unfold Go.stringLexeme
    cases Go.stringRest here (here.after '"') t <;> rfl
  rw [hmap, hmap]
  apply (h.stringRest _ _ _ _).map
  rintro r r' ⟨hbody, hleft⟩
  exact ⟨congrArg (fun body => Kind.str ('"' :: body)) hbody, hleft⟩

/-- Line ends with carriage returns and without end the same lexemes. -/
theorem lexeme (h : Returned t u) (here here' : Place) (c : Char) :
    Together Lexeme.Alike (lexeme here c t) (Go.lexeme here' c u) := by
  have hseparators : ['\n', '\r'] ⊆ separators := by simp [separators]
  have hword : ∀ x ∈ ['\n', '\r'], isWordChar x = false :=
    fun x hx => isWordChar_of_separator (hseparators hx)
  unfold Go.lexeme
  split
  · exact h.commentLexeme here here'
  split
  · exact h.rawLexeme here here'
  split
  · exact h.stringLexeme here here'
  split
  · obtain ⟨htake, hdrop⟩ := h.stretch (p := Char.isDigit) rfl rfl
    exact .results ⟨by rw [htake], hdrop⟩
  split
  · obtain ⟨htake, hdrop⟩ := h.stretch (p := isWordChar) (hword _ (by simp)) (hword _ (by simp))
    exact .results ⟨by rw [htake], hdrop⟩
  split
  · exact .results ⟨rfl, h⟩
  · cases Punct.ofChar? c with
    | none => exact .errors _ _
    | some p => exact .results ⟨rfl, h⟩

end Returned

/-! ## Marks -/

/-- A token loses the blanks at its end if it is a comment. -/
def Mark.trimmed : Mark → Mark
  | token k => .token k.trimmed
  | feed => .feed

namespace Returned

variable {t u : List Char} {ms ns : List Mark}

/-- A text with carriage returns is cut into the marks of the text without them. -/
theorem exists_cuts (h : Returned t u) (ht : Cuts t ms []) :
    ∃ ns, Cuts u ns [] ∧ ns.map Mark.trimmed = ms.map Mark.trimmed := by
  generalize hend : ([] : List Char) = rest at ht
  induction ht generalizing u with
  | done =>
    subst hend
    cases h with
    | nil => exact ⟨[], .done, rfl⟩
  | space hc _ ih =>
    cases h with
    | cons c h =>
      obtain ⟨ns, hns, hmarks⟩ := ih h hend
      exact ⟨ns, .space hc hns, hmarks⟩
    | feed => exact absurd hc (by decide)
  | feed _ ih =>
    cases h with
    | cons c h =>
      obtain ⟨ns, hns, hmarks⟩ := ih h hend
      exact ⟨.feed :: ns, .feed hns, congrArg (Mark.feed :: ·) hmarks⟩
    | feed h =>
      obtain ⟨ns, hns, hmarks⟩ := ih h hend
      exact ⟨.feed :: ns, .space rfl (.feed hns), congrArg (Mark.feed :: ·) hmarks⟩
  | @token here c t rest l ms hl _ ih =>
    cases h with
    | cons c h =>
      obtain ⟨l', hl', hkind, hrest⟩ := (h.lexeme here here c).exists_right hl
      obtain ⟨ns, hns, hmarks⟩ := ih hrest hend
      refine ⟨.token l'.kind :: ns, .token hl' hns, ?_⟩
      rw [List.map_cons, List.map_cons, hmarks, Mark.trimmed, hkind]
      rfl
    | feed => exact absurd rfl (ne_blank_of_lexeme hl).1

/-- A text is cut into the marks of the text with carriage returns. -/
theorem exists_cuts_without (h : Returned t u) (hu : Cuts u ns []) :
    ∃ ms, Cuts t ms [] ∧ ns.map Mark.trimmed = ms.map Mark.trimmed := by
  generalize hend : ([] : List Char) = rest at hu
  induction hu generalizing t with
  | done =>
    subst hend
    cases h with
    | nil => exact ⟨[], .done, rfl⟩
  | space hc _ ih =>
    cases h with
    | cons c h =>
      obtain ⟨ms, hms, hmarks⟩ := ih h hend
      exact ⟨ms, .space hc hms, hmarks⟩
    | feed h => exact ih (.cons '\n' h) hend
  | feed _ ih =>
    cases h with
    | cons c h =>
      obtain ⟨ms, hms, hmarks⟩ := ih h hend
      exact ⟨.feed :: ms, .feed hms, congrArg (Mark.feed :: ·) hmarks⟩
  | @token here c u rest l ns hl _ ih =>
    cases h with
    | cons c h =>
      obtain ⟨l', hl', hkind, hrest⟩ := (h.lexeme here here c).exists_left hl
      obtain ⟨ms, hms, hmarks⟩ := ih hrest hend
      refine ⟨.token l'.kind :: ms, .token hl' hms, ?_⟩
      rw [List.map_cons, List.map_cons, hmarks, Mark.trimmed, hkind]
      rfl
    | feed => exact absurd (ne_blank_of_lexeme hl).2 (by decide)

end Returned

end SchemaToGo.Go
