import SchemaToGo.Proofs.Json.StringLiteral
import SchemaToGo.Proofs.Json.Takes.Literal
import SchemaToGo.Schema.EnclosingKey
import Mathlib.Data.List.Induction
set_option autoImplicit false

/-!
# String literals from their end

Within a string literal a quote stands behind a backslash, and before its opening quote there is
none.  So a literal is found from its closing quote on, however it escapes its characters:
`quotedBack?_quoted`.  This holds of whatever stands between two quotes, also if the first of them
closes a string and the second one opens the next.  Nothing else is found:
`literalSuffix?_eq_some_iff`.
-/

namespace SchemaToGo.Json

open Reader

/-! ## Quotes within literals -/

/-- Every quote stands behind a backslash. -/
def QuotesEscaped (bs : List UInt8) : Prop :=
  ∀ front back, bs = front ++ Byte.quote :: back → front.getLast? = some Byte.backslash

theorem IsHex.ne_quote {b : UInt8} (h : IsHex b) : b ≠ Byte.quote := by
  rintro rfl
  exact absurd h (by decide +kernel : ¬ (Byte.hexValue? Byte.quote).isSome = true)

namespace QuotesEscaped

theorem of_not_mem {bs : List UInt8} (h : Byte.quote ∉ bs) : QuotesEscaped bs := by
  rintro front back rfl
  exact absurd (List.mem_append_right _ List.mem_cons_self) h

theorem cons {b : UInt8} {bs : List UInt8} (hb : b ≠ Byte.quote) (h : QuotesEscaped bs) :
    QuotesEscaped (b :: bs) := by
  intro front back hbs
  cases front with
  | nil => exact absurd (List.cons.inj hbs).1 hb
  | cons x front =>
    have hlast := h front back (List.cons.inj hbs).2
    rw [List.getLast?_cons, hlast]
    rfl

/-- What stands behind a backslash does not count. -/
theorem escape (b : UInt8) {bs : List UInt8} (h : QuotesEscaped bs) :
    QuotesEscaped (Byte.backslash :: b :: bs) := by
  intro front back hbs
  match front with
  | [] => exact absurd (List.cons.inj hbs).1 (by decide)
  | [x] =>
    rw [List.getLast?_singleton, (List.cons.inj hbs).1]
  | x :: y :: front =>
    have hlast := h front back (List.cons.inj (List.cons.inj hbs).2).2
    rw [List.getLast?_cons, List.getLast?_cons, hlast]
    rfl

theorem of_concat {bs : List UInt8} {b : UInt8} (h : QuotesEscaped (bs ++ [b])) :
    QuotesEscaped bs := by
  intro front back hbs
  refine h front (back ++ [b]) ?_
  rw [hbs, List.append_assoc, List.cons_append]

/-- Between two runs a quote may stand if the first one ends in a backslash. -/
theorem append_quote {bs more : List UInt8} (h : QuotesEscaped bs)
    (hlast : bs.getLast? = some Byte.backslash) (hmore : Byte.quote ∉ more) :
    QuotesEscaped (bs ++ Byte.quote :: more) := by
  intro front back hbs
  rcases List.append_eq_append_iff.mp hbs with ⟨mid, rfl, hmid⟩ | ⟨mid, rfl, hmid⟩
  · cases mid with
    | nil => rwa [List.append_nil]
    | cons x mid =>
      rw [(List.cons.inj hmid).2] at hmore
      exact absurd (List.mem_append_right _ List.mem_cons_self) hmore
  · cases mid with
    | nil => rwa [List.append_nil] at hlast
    | cons x mid =>
      obtain ⟨rfl, -⟩ := List.cons.inj hmid
      exact h front mid rfl

end QuotesEscaped

namespace Characters

variable {bs more : List UInt8}

theorem quotesEscaped (h : Characters bs) : QuotesEscaped bs := by
  induction h with
  | nil => exact .of_not_mem List.not_mem_nil
  | plain hb _ ih =>
    refine ih.cons ?_
    rintro rfl
    exact absurd hb (by decide)
  | short _ _ ih => exact ih.escape _
  | hex ha hb hc hd _ ih =>
    exact ((((ih.cons hd.ne_quote).cons hc.ne_quote).cons hb.ne_quote).cons ha.ne_quote).escape _

/-! ## Parts of literals -/

/-- Literals are cut off before a byte that is in no escape. -/
theorem of_append_cons {b : UInt8} (h : Characters (bs ++ b :: more)) (hslash : b ≠ Byte.backslash)
    (hu : b ≠ Byte.ofChar 'u') (hshort : shortEscape? b = none) (hhex : Byte.hexValue? b = none) :
    Characters bs := by
  have hnotHex : ¬ IsHex b := by
    unfold IsHex
    rw [hhex]
    exact Bool.false_ne_true
  generalize htext : bs ++ b :: more = text at h
  induction h generalizing bs with
  | nil => exact absurd htext (List.append_ne_nil_of_right_ne_nil _ (List.cons_ne_nil _ _))
  | plain hx _ ih =>
    cases bs with
    | nil => exact .nil
    | cons x bs =>
      cases htext
      exact .plain hx (ih rfl)
  | short hx _ ih =>
    match bs with
    | [] => exact absurd (List.cons.inj htext).1 hslash
    | [x] =>
      obtain ⟨rfl, -⟩ := List.cons.inj (List.cons.inj htext).2
      rw [hshort] at hx
      cases hx
    | x :: y :: bs =>
      cases htext
      exact .short hx (ih rfl)
  | hex ha hb hc hd _ ih =>
    match bs with
    | [] => exact absurd (List.cons.inj htext).1 hslash
    | [x] => exact absurd (List.cons.inj (List.cons.inj htext).2).1 hu
    | [x, y] => cases htext; exact absurd ha hnotHex
    | [x, y, z] => cases htext; exact absurd hb hnotHex
    | [x, y, z, w] => cases htext; exact absurd hc hnotHex
    | [x, y, z, w, v] => cases htext; exact absurd hd hnotHex
    | x :: y :: z :: w :: v :: u :: bs =>
      cases htext
      exact .hex ha hb hc hd (ih rfl)

theorem of_plain_cons {b : UInt8} (hb : isPlain b = true) (h : Characters (b :: bs)) :
    Characters bs := by
  cases h with
  | plain _ h => exact h
  | short | hex => exact absurd hb (by decide)

theorem of_short_cons {b : UInt8} (hb : (shortEscape? b).isSome)
    (h : Characters (Byte.backslash :: b :: bs)) : Characters bs := by
  cases h with
  | plain hslash _ => exact absurd hslash (by decide)
  | short _ h => exact h
  | hex => exact absurd hb (by decide)

theorem of_hex_cons {a b c d : UInt8}
    (h : Characters (Byte.backslash :: Byte.ofChar 'u' :: a :: b :: c :: d :: bs)) :
    Characters bs := by
  cases h with
  | plain hslash _ => exact absurd hslash (by decide)
  | short hu _ => exact absurd hu (by decide)
  | hex _ _ _ _ h => exact h

/-- What stands between quotes is cut into plain bytes and escapes in one way only. -/
theorem of_append_right (h : Characters bs) (hmore : Characters (bs ++ more)) :
    Characters more := by
  induction h with
  | nil => exact hmore
  | plain hb _ ih => exact ih (hmore.of_plain_cons hb)
  | short hb _ ih => exact ih (hmore.of_short_cons hb)
  | hex _ _ _ _ _ ih => exact ih hmore.of_hex_cons

end Characters

/-! ## What is no literal -/

/-- What is decoded are characters between quotes. -/
theorem exists_quoted_of_decodeLiteral? {literal : List UInt8} {k : String}
    (h : decodeLiteral? literal = some k) :
    ∃ letters, Characters letters ∧ literal = quoted letters := by
  cases literal with
  | nil => cases h
  | cons b rest =>
    unfold decodeLiteral? at h
    dsimp only at h
    by_cases hb : b = Byte.quote
    · subst hb
      rw [if_pos rfl] at h
      split at h
      · next s index hrun =>
        obtain ⟨taken, hrest, -, letters, hletters, rfl⟩ := (stringRest_takes _ _ _).of_ok hrun
        rw [List.append_nil] at hrest
        exact ⟨letters, hletters, congrArg (Byte.quote :: ·) hrest⟩
      · cases h
    · rw [if_neg hb] at h
      cases h

section

variable {letters : List UInt8} (h : Characters letters)
include h

/-- Nothing may follow a literal. -/
theorem decodeLiteral?_quoted_append (x : UInt8) (more : List UInt8) :
    decodeLiteral? (quoted letters ++ x :: more) = none := by
  have hbound : letters.length < (Byte.quote :: (letters ++ Byte.quote :: x :: more)).length := by
    simp only [List.length_cons, List.length_append]
    omega
  have hrun := stringRest_reads h hbound (x :: more) ⟨1, _⟩ rfl
  rw [quoted_append]
  unfold decodeLiteral?
  dsimp only
  rw [if_pos rfl]
  cases hvalue : decodeLiteral? (quoted letters) with
  | none =>
    rw [hvalue] at hrun
    obtain ⟨e, he⟩ := hrun
    rw [he]
  | some s =>
    rw [hvalue] at hrun
    obtain ⟨⟨index, rest⟩, hs, rfl⟩ := hrun
    rw [hs]

/-- A literal needs its closing quote. -/
theorem decodeLiteral?_open : decodeLiteral? (Byte.quote :: letters) = none := by
  refine Option.eq_none_iff_forall_ne_some.mpr fun k hk => ?_
  obtain ⟨bs, hbs, hletters⟩ := exists_quoted_of_decodeLiteral? hk
  obtain ⟨-, rfl⟩ := List.cons.inj hletters
  cases hbs.of_append_right h with
  | plain hquote _ => exact absurd hquote (by decide)

end

/-! ## Looking back -/

theorem literalBack?_of_not_mem {bs : List UInt8} (h : Byte.quote ∉ bs) (found : List UInt8) :
    literalBack? bs found = none := by
  induction bs generalizing found with
  | nil => rfl
  | cons b bs ih =>
    rw [List.mem_cons, not_or] at h
    unfold literalBack?
    rw [if_neg fun hb => h.1 hb.1.symm]
    exact ih h.2 _

section

variable {front letters : List UInt8} (hfront : front.getLast? ≠ some Byte.backslash)
  (hletters : QuotesEscaped letters)
include hfront hletters

/-- The opening quote is the nearest one that no backslash stands before. -/
theorem literalBack?_quoted (found : List UInt8) :
    literalBack? (front ++ Byte.quote :: letters).reverse found =
      some (Byte.quote :: (letters ++ found)) := by
  induction letters using List.reverseRecOn generalizing found with
  | nil =>
    rw [List.reverse_append]
    show literalBack? (Byte.quote :: front.reverse) found = _
    unfold literalBack?
    rw [List.head?_reverse, if_pos ⟨rfl, hfront⟩]
    rfl
  | append_singleton letters b ih =>
    have hreverse : (front ++ Byte.quote :: (letters ++ [b])).reverse =
        b :: (front ++ Byte.quote :: letters).reverse := by
      rw [← List.cons_append, ← List.append_assoc, List.reverse_append]
      rfl
    have hescaped : b = Byte.quote →
        (front ++ Byte.quote :: letters).getLast? = some Byte.backslash := by
      rintro rfl
      have hlast := hletters letters [] rfl
      rw [List.getLast?_append, List.getLast?_cons, hlast]
      rfl
    rw [hreverse, literalBack?, List.head?_reverse, if_neg fun hb => hb.2 (hescaped hb.1),
      ih hletters.of_concat, List.append_assoc]
    rfl

/-- What stands between two quotes is found from the second one, and decoded. -/
theorem quotedBack?_quoted :
    quotedBack? (front ++ quoted letters).reverse = decodeLiteral? (quoted letters) := by
  have hreverse : (front ++ quoted letters).reverse =
      Byte.quote :: (front ++ Byte.quote :: letters).reverse := by
    unfold quoted
    rw [← List.cons_append, ← List.append_assoc, List.reverse_append]
    rfl
  rw [hreverse, quotedBack?, if_pos rfl, literalBack?_quoted hfront hletters]
  rfl

end

/-- What is found starts with a quote that no backslash stands before. -/
theorem exists_of_literalBack? {before found literal : List UInt8}
    (h : literalBack? before found = some literal) :
    ∃ front letters, before.reverse = front ++ Byte.quote :: letters ∧
      front.getLast? ≠ some Byte.backslash ∧ literal = Byte.quote :: (letters ++ found) := by
  induction before generalizing found with
  | nil => cases h
  | cons b before ih =>
    unfold literalBack? at h
    split at h
    · next hb =>
      obtain ⟨rfl, hslash⟩ := hb
      cases h
      refine ⟨before.reverse, [], List.reverse_cons, ?_, rfl⟩
      rwa [List.getLast?_reverse]
    · obtain ⟨front, letters, hbefore, hfront, rfl⟩ := ih h
      refine ⟨front, letters ++ [b], ?_, hfront, ?_⟩
      · rw [List.reverse_cons, hbefore, List.append_assoc, List.cons_append]
      · rw [List.append_assoc, List.singleton_append]

/-- What is found from the end of the bytes is the text of a literal that they end in. -/
theorem exists_of_quotedBack? {before : List UInt8} {k : String}
    (h : quotedBack? before = some k) :
    ∃ front letters, before.reverse = front ++ quoted letters ∧
      front.getLast? ≠ some Byte.backslash ∧ Characters letters ∧
        decodeLiteral? (quoted letters) = some k := by
  cases before with
  | nil => cases h
  | cons b before =>
    rw [quotedBack?] at h
    by_cases hb : b = Byte.quote
    · rw [if_pos hb] at h
      obtain ⟨literal, hback, hdecode⟩ := Option.bind_eq_some_iff.mp h
      obtain ⟨front, letters, hbefore, hfront, hliteral⟩ := exists_of_literalBack? hback
      obtain ⟨characters, hcharacters, rfl⟩ := exists_quoted_of_decodeLiteral? hdecode
      refine ⟨front, characters, ?_, hfront, hcharacters, hdecode⟩
      rw [hliteral, List.reverse_cons, hbefore, hb, List.append_assoc, List.cons_append]
    · rw [if_neg hb] at h
      cases h

/-- Bytes are found to end in a string literal, and its text is found, exactly if they end in one
that is decoded to this text and no backslash stands before it.  The literal may escape what it
likes, and any quotes may stand before it. -/
theorem literalSuffix?_eq_some_iff {bs : List UInt8} {k : String} :
    literalSuffix? bs = some k ↔ ∃ front literal, bs = front ++ literal ∧
      front.getLast? ≠ some Byte.backslash ∧ StringLiteral literal ∧
        decodeLiteral? literal = some k := by
  unfold literalSuffix?
  constructor
  · intro h
    obtain ⟨front, letters, hbs, hfront, hletters, hdecode⟩ := exists_of_quotedBack? h
    rw [List.reverse_reverse] at hbs
    exact ⟨front, quoted letters, hbs, hfront, .quoted hletters, hdecode⟩
  · rintro ⟨front, _, rfl, hfront, ⟨hletters⟩, hdecode⟩
    rw [quotedBack?_quoted hfront hletters.quotesEscaped]
    exact hdecode

/-- A quote before the literal, and an escaped one in it. -/
example : literalSuffix? (Utf8.encode "\x7b\"a\": \"b\\\"c\"") = some "b\"c" := by decide +kernel

end SchemaToGo.Json
