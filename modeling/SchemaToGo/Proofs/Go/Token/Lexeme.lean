import SchemaToGo.Proofs.Go.Token.Scan
set_option autoImplicit false

/-!
# What a lexeme is

The converse of `lexeme_spelling`: whatever the scanner takes off a text is spelled as a token of
its kind, the next character does not continue it, and the place where it stands makes no
difference.  Only carriage returns in raw strings are lost between a lexeme's source and its
spelling: `lexeme_proper`.
-/

namespace SchemaToGo.Go

theorem Place.advance_append (p : Place) (t u : List Char) :
    p.advance (t ++ u) = (p.advance t).advance u := List.foldl_append

/-! ## Interpreted strings -/

theorem escape?_eq_some {t esc rest : List Char} (h : escape? t = some (esc, rest)) :
    t = esc ++ rest ∧ ∀ more, escape? (esc ++ more) = some (esc, more) := by
  cases t with
  | nil => cases h
  | cons c tail =>
    cases hshape : escapeShape? c with
    | none => simp [escape?, hshape] at h
    | some shape =>
      obtain ⟨n, base⟩ := shape
      simp only [escape?, hshape] at h
      split at h
      · next hdigits =>
        cases h
        refine ⟨by simp, fun more => ?_⟩
        have htake : (tail.take n ++ more).take n = tail.take n := by
          rw [List.take_append_of_le_length (Nat.le_of_eq hdigits.1.symm), List.take_take,
            Nat.min_self]
        have hdrop : (tail.take n ++ more).drop n = more := List.drop_left' hdigits.1
        simp only [List.cons_append, escape?, hshape, htake, hdrop]
        rw [if_pos hdigits]
      · cases h

section

variable (opening here : Place) {rest left esc : List Char}

theorem stringRest_feed (rest : List Char) :
    stringRest opening here ('\n' :: rest) = .error ⟨opening, .openString⟩ := by
  rw [stringRest, if_pos rfl]

theorem stringRest_unknown (h : escape? rest = none) :
    stringRest opening here ('\\' :: rest) = .error ⟨here.after '\\', .unknownEscape⟩ := by
  rw [stringRest, if_neg (by decide), if_neg (by decide), if_pos rfl]
  split
  · rfl
  · next heq =>
    rw [h] at heq
    cases heq

theorem stringRest_known (h : escape? rest = some (esc, left)) :
    stringRest opening here ('\\' :: rest) =
      (stringRest opening (here.advance ('\\' :: esc)) left).map
        fun r => ('\\' :: esc ++ r.1, r.2) := by
  rw [stringRest, if_neg (by decide), if_neg (by decide), if_pos rfl]
  split
  · next heq =>
    rw [h] at heq
    cases heq
  · next heq =>
    rw [h] at heq
    cases heq
    cases stringRest opening (here.advance ('\\' :: esc)) left <;> rfl

theorem stringRest_char {c : Char} (hfeed : c ≠ '\n') (hquote : c ≠ '"') (hslash : c ≠ '\\')
    (rest : List Char) : stringRest opening here (c :: rest) =
      (stringRest opening (here.after c) rest).map fun r => (c :: r.1, r.2) := by
  rw [stringRest, if_neg hfeed, if_neg hquote, if_neg hslash]
  cases stringRest opening (here.after c) rest <;> rfl

end

/-- What is read of a string does not depend on what follows it, nor on its place. -/
theorem stringRest_eq_ok {opening here : Place} {t : List Char} :
    ∀ {body left : List Char}, stringRest opening here t = .ok (body, left) →
      t = body ++ left ∧
        ∀ opening here rest, stringRest opening here (body ++ rest) = .ok (body, rest) := by
  fun_induction stringRest opening here t with
  | case1 => intro body left h; cases h
  | case2 => intro body left h; cases h
  | case3 =>
    intro body left h
    cases h
    refine ⟨rfl, fun opening here rest => ?_⟩
    rw [List.singleton_append, stringRest, if_neg (by decide), if_pos rfl]
  | case4 => intro body left h; cases h
  | case5 here rest esc rest' hesc _ hfeed _ ih =>
    intro body left h
    cases hrec : stringRest opening (here.advance ('\\' :: esc)) rest' with
    | error e => rw [hrec] at h; cases h
    | ok r =>
      rw [hrec] at h
      cases h
      obtain ⟨hrest, hsame⟩ := ih hrec
      obtain ⟨htext, hescape⟩ := escape?_eq_some hesc
      refine ⟨by rw [htext, hrest]; simp, fun opening here more => ?_⟩
      have hmore : ('\\' :: esc ++ r.1) ++ more = '\\' :: (esc ++ (r.1 ++ more)) := by simp
      rw [hmore, stringRest_known _ _ (hescape _), hsame]
      rfl
  | case6 here c rest hfeed hquote hslash ih =>
    intro body left h
    cases hrec : stringRest opening (here.after c) rest with
    | error e => rw [hrec] at h; cases h
    | ok r =>
      rw [hrec] at h
      cases h
      obtain ⟨hrest, hsame⟩ := ih hrec
      refine ⟨by rw [hrest]; rfl, fun opening here more => ?_⟩
      rw [List.cons_append, stringRest_char _ _ hfeed hquote hslash, hsame]
      rfl

/-- A string is refused at its opening quote, or behind a backslash that starts no escape: there a
quote makes an escape, and a second one closes the string. -/
theorem stringRest_eq_error {opening here : Place} {t : List Char} :
    ∀ {e : FormatError}, stringRest opening here t = .error e →
      e.place = opening ∨ ∃ body back, t = body ++ back ∧ e.place = here.advance body ∧
        ∀ opening here rest, stringRest opening here (body ++ ['"', '"'] ++ rest) =
          .ok (body ++ ['"', '"'], rest) := by
  fun_induction stringRest opening here t with
  | case1 => intro e h; cases h; exact .inl rfl
  | case2 => intro e h; cases h; exact .inl rfl
  | case3 => intro e h; cases h
  | case4 here rest hfeed hquote hunknown =>
    intro e h
    cases h
    refine .inr ⟨['\\'], rest, rfl, rfl, fun opening here more => ?_⟩
    have hescape : escape? ('"' :: '"' :: more) = some (['"'], '"' :: more) := by
      simp [escape?, escapeShape?]
    show stringRest opening here ('\\' :: '"' :: '"' :: more) = _
    rw [stringRest_known _ _ hescape, stringRest, if_neg (by decide), if_pos rfl]
    rfl
  | case5 here rest esc rest' hesc hlt hfeed hquote ih =>
    intro e h
    cases hrec : stringRest opening (here.advance ('\\' :: esc)) rest' with
    | ok r => rw [hrec] at h; cases h
    | error e' =>
      rw [hrec] at h
      cases h
      obtain ⟨htext, hescape⟩ := escape?_eq_some hesc
      rcases ih hrec with hplace | ⟨body, back, hrest, hplace, hclosed⟩
      · exact .inl hplace
      refine .inr ⟨'\\' :: (esc ++ body), back, by rw [htext, hrest]; simp, ?_,
        fun opening here more => ?_⟩
      · rw [hplace, ← List.cons_append, Place.advance_append]
      · have hmore : ('\\' :: (esc ++ body)) ++ ['"', '"'] ++ more =
            '\\' :: (esc ++ (body ++ ['"', '"'] ++ more)) := by simp
        rw [hmore, stringRest_known _ _ (hescape _), hclosed]
        exact congrArg Except.ok (by simp)
  | case6 here c rest hfeed hquote hslash ih =>
    intro e h
    cases hrec : stringRest opening (here.after c) rest with
    | ok r => rw [hrec] at h; cases h
    | error e' =>
      rw [hrec] at h
      cases h
      rcases ih hrec with hplace | ⟨body, back, rfl, hplace, hclosed⟩
      · exact .inl hplace
      refine .inr ⟨c :: body, back, rfl, hplace, fun opening here more => ?_⟩
      show stringRest opening here (c :: (body ++ ['"', '"'] ++ more)) = _
      rw [stringRest_char _ _ hfeed hquote hslash, hclosed]
      rfl

/-! ## Lexemes -/

/-- What holds of the lexeme that a text starts with. -/
structure Lexeme.Proper (c : Char) (t : List Char) (l : Lexeme) : Prop where
  spelled : l.kind.Spelled
  /-- the lexeme is the longest: what follows does not continue it -/
  ends : l.kind.EndsBefore l.rest.head?
  /-- the lexeme is the same at every place -/
  same : ∀ here, lexeme here c t = .ok l
  /-- line breaks are not lost -/
  feeds : l.source.count '\n' = l.kind.spelling.count '\n'

theorem head?_dropWhile_eq_false {p : Char → Bool} {t : List Char} :
    ∀ x ∈ (t.dropWhile p).head?, p x = false := by
  intro x hx
  have hne : t.dropWhile p ≠ [] := by
    intro hnil
    rw [hnil] at hx
    cases hx
  rw [List.head?_eq_some_head hne] at hx
  cases hx
  exact eq_false_of_ne_true (by simpa using List.head_dropWhile_not p hne)

/-- Characters of a stretch taken off a text satisfy the test. -/
theorem of_mem_takeWhile {p : Char → Bool} {t : List Char} {x : Char} (h : x ∈ t.takeWhile p) :
    p x = true := List.all_eq_true.mp List.all_takeWhile x h

theorem commentLexeme_proper {here : Place} {t : List Char} {l : Lexeme}
    (h : commentLexeme here t = .ok l) : l.Proper '/' t := by
  unfold commentLexeme at h
  split at h
  · next rest =>
    cases h
    have htake : ('/' :: rest).takeWhile (fun x => decide (x ≠ '\n')) =
        '/' :: rest.takeWhile (fun x => decide (x ≠ '\n')) := by
      rw [List.takeWhile_cons_of_pos (by decide)]
    refine ⟨⟨rest.takeWhile (fun x => decide (x ≠ '\n')), by rw [htake], fun hmem => ?_⟩,
      fun x hx => ?_, fun here => rfl, rfl⟩
    · have := of_mem_takeWhile hmem
      simp at this
    · have := head?_dropWhile_eq_false x hx
      simpa using this
  · cases h

theorem rawLexeme_proper {here : Place} {t : List Char} {l : Lexeme}
    (h : rawLexeme here t = .ok l) : l.Proper '`' t := by
  have hsame : ∀ here', rawLexeme here' t = .ok l := by
    intro here'
    unfold rawLexeme at h ⊢
    cases hraw : rawRest? t with
    | none => rw [hraw] at h; cases h
    | some r => rw [hraw] at h; exact h
  unfold rawLexeme rawRest? at h
  split at h
  · cases h
  · next body left hraw =>
    cases h
    have hbody : '`' ∉ body := by
      intro hmem
      split at hraw
      · cases hraw
      · cases hraw
        have := of_mem_takeWhile hmem
        simp at this
    refine ⟨.inl ⟨body.filter fun x => decide (x ≠ '\r'), rfl, fun hmem => ?_, fun hmem => ?_⟩,
      trivial, hsame, ?_⟩
    · exact hbody (List.mem_filter.mp hmem).1
    · have := (List.mem_filter.mp hmem).2
      simp at this
    · show ('`' :: body ++ ['`']).count '\n' =
        ('`' :: body.filter (fun x => decide (x ≠ '\r')) ++ ['`']).count '\n'
      simp only [List.cons_append, List.count_cons, List.count_append, List.count_nil]
      rw [List.count_filter (by decide)]

theorem stringLexeme_proper {here : Place} {t : List Char} {l : Lexeme}
    (h : stringLexeme here t = .ok l) : l.Proper '"' t := by
  unfold stringLexeme at h
  cases hr : stringRest here (here.after '"') t with
  | error e => rw [hr] at h; cases h
  | ok r =>
    rw [hr] at h
    cases h
    obtain ⟨htext, hsame⟩ := stringRest_eq_ok hr
    refine ⟨.inr ⟨r.1, rfl, hsame⟩, trivial, fun here => ?_, rfl⟩
    unfold lexeme stringLexeme
    rw [if_neg (by decide), if_neg (by decide), if_pos rfl, htext, hsame]
    rfl

/-- Whatever the scanner takes off a text is a token of its kind, as long as can be. -/
theorem lexeme_proper {here : Place} {c : Char} {t : List Char} {l : Lexeme}
    (h : lexeme here c t = .ok l) : l.Proper c t := by
  unfold lexeme at h
  split at h
  · next hc =>
    subst hc
    exact commentLexeme_proper h
  next hslash =>
  split at h
  · next hc =>
    subst hc
    exact rawLexeme_proper h
  next hback =>
  split at h
  · next hc =>
    subst hc
    exact stringLexeme_proper h
  next hquote =>
  -- no other lexeme has anything to do with its place
  have hrest : ∀ here', lexeme here' c t = if c.isDigit then _ else _ := fun here' => by
    unfold lexeme
    rw [if_neg hslash, if_neg hback, if_neg hquote]
  split at h
  · next hdigit =>
    cases h
    refine ⟨⟨List.cons_ne_nil _ _, fun x hx => ?_⟩, head?_dropWhile_eq_false, fun here' => ?_, rfl⟩
    · rcases List.mem_cons.mp hx with rfl | hx
      · exact hdigit
      · exact of_mem_takeWhile hx
    · rw [hrest, if_pos hdigit]
  next hdigit =>
  split at h
  · next hletter =>
    cases h
    have hword : isWord (c :: t.takeWhile isWordChar) = true :=
      isWord_iff.mpr ⟨c, _, rfl, hletter, fun x hx => of_mem_takeWhile hx⟩
    refine ⟨hword, head?_dropWhile_eq_false, fun here' => ?_, rfl⟩
    rw [hrest, if_neg hdigit, if_pos hletter]
  next hletter =>
  split at h
  · next hc =>
    cases h
    refine ⟨rfl, trivial, fun here' => ?_, rfl⟩
    rw [hrest, if_neg hdigit, if_neg hletter, if_pos hc]
  next hsemicolon =>
  split at h
  · next p hp =>
    cases h
    refine ⟨trivial, trivial, fun here' => ?_, ?_⟩
    · rw [hrest, if_neg hdigit, if_neg hletter, if_neg hsemicolon, hp]
    · show [c].count '\n' = [p.char].count '\n'
      rw [Punct.ofChar?_eq_some_iff.mp hp]
  · cases h

end SchemaToGo.Go
