import SchemaToGo.Go.Tag
import SchemaToGo.Proofs.Go.Token.Scan
set_option autoImplicit false

/-!
# Tags as tokens

Whatever the JSON name of a field, its tag is scanned as one string literal: line breaks are
escaped in the tag's text, and what would end the literal is escaped in the literal, or the literal
is of the other kind.
-/

namespace SchemaToGo.Go

/-- Neither a line feed nor a carriage return. -/
def IsInline (c : Char) : Prop := c ≠ '\n' ∧ c ≠ '\r'

instance (c : Char) : Decidable (IsInline c) := inferInstanceAs (Decidable (_ ∧ _))

theorem isInline_hexDigit : ∀ n < 16, IsInline (hexDigit n) := by decide

theorem isInline_of_all {text : List Char} (h : text.all (IsInline ·) = true) :
    ∀ x ∈ text, IsInline x := fun x hx =>
  of_decide_eq_true (List.all_eq_true.mp h x hx)

/-- Line breaks are escaped in tag values. -/
theorem isInline_escapeTagChar (c : Char) : ∀ x ∈ escapeTagChar c, IsInline x := by
  unfold escapeTagChar
  split
  · exact isInline_of_all (by decide)
  · split
    · exact isInline_of_all (by decide)
    · split
      · exact isInline_of_all (by decide)
      · next hfeed =>
        split
        · exact isInline_of_all (by decide)
        · next hreturn =>
          split
          · exact isInline_of_all (by decide)
          · split
            · intro x hx
              simp only [List.mem_cons, List.not_mem_nil, or_false] at hx
              rcases hx with rfl | rfl | rfl | rfl | rfl | rfl
              · decide
              · decide
              · decide
              · decide
              · exact isInline_hexDigit _ (Nat.mod_lt _ (by decide))
              · exact isInline_hexDigit _ (Nat.mod_lt _ (by decide))
            · intro x hx
              rw [List.mem_singleton.mp hx]
              exact ⟨hfeed, hreturn⟩

/-- A tag's text is on one line. -/
theorem isInline_tagText (f : Field) : ∀ x ∈ tagText f, IsInline x := by
  intro x hx
  unfold tagText escapeTagValue at hx
  simp only [List.mem_append, List.mem_flatMap] at hx
  rcases hx with ((hx | ⟨c, _, hx⟩) | hx) | hx
  · exact isInline_of_all (by decide) x hx
  · exact isInline_escapeTagChar c x hx
  · split at hx
    · cases hx
    · exact isInline_of_all (by decide) x hx
  · rw [List.mem_singleton.mp hx]
    decide

/-! ## Interpreted literals -/

theorem stringRest_quote (opening here : Place) (rest : List Char) :
    stringRest opening here ('"' :: rest) = .ok (['"'], rest) := by
  rw [stringRest, if_neg (by decide), if_pos rfl]

theorem stringRest_plain {c : Char} (hfeed : c ≠ '\n') (hquote : c ≠ '"') (hslash : c ≠ '\\')
    {rest body left : List Char} {opening here : Place}
    (h : stringRest opening (here.after c) rest = .ok (body, left)) :
    stringRest opening here (c :: rest) = .ok (c :: body, left) := by
  rw [stringRest, if_neg hfeed, if_neg hquote, if_neg hslash, h]
  rfl

theorem stringRest_escape {c : Char} (hc : c = '\\' ∨ c = '"') {rest body left : List Char}
    {opening here : Place}
    (h : stringRest opening (here.advance ['\\', c]) rest = .ok (body, left)) :
    stringRest opening here ('\\' :: c :: rest) = .ok ('\\' :: c :: body, left) := by
  have hescape : escape? (c :: rest) = some ([c], rest) := by
    rcases hc with rfl | rfl <;> rfl
  rw [stringRest, if_neg (by decide), if_neg (by decide), if_pos rfl]
  split
  · next heq =>
    rw [hescape] at heq
    cases heq
  · next heq =>
    rw [hescape] at heq
    cases heq
    rw [h]
    rfl

/-- Escaped text on one line is read up to the closing quote. -/
theorem stringRest_escaped {tag : List Char} (htag : ∀ x ∈ tag, IsInline x)
    (opening here : Place) (rest : List Char) :
    stringRest opening here (tag.flatMap escapeLiteralChar ++ ['"'] ++ rest) =
      .ok (tag.flatMap escapeLiteralChar ++ ['"'], rest) := by
  induction tag generalizing here with
  | nil => exact stringRest_quote opening here rest
  | cons c tag ih =>
    have hrest := ih fun x hx => htag x (List.mem_cons_of_mem _ hx)
    rw [List.flatMap_cons]
    unfold escapeLiteralChar
    split
    · exact stringRest_escape (.inl rfl) (hrest _)
    · next hslash =>
      split
      · exact stringRest_escape (.inr rfl) (hrest _)
      · next hquote =>
        exact stringRest_plain (htag c List.mem_cons_self).1 hquote hslash (hrest _)

/-! ## Literals -/

/-- The literal of a tag on one line is scanned as a string. -/
theorem spelled_tagLiteral {tag : List Char} (htag : ∀ x ∈ tag, IsInline x) :
    (Kind.str (tagLiteral tag)).Spelled := by
  unfold tagLiteral
  split
  · exact .inr ⟨_, rfl, fun opening here rest => stringRest_escaped htag opening here rest⟩
  · next hquote =>
    refine .inl ⟨tag, rfl, fun hmem => hquote (List.contains_iff_mem.mpr hmem), fun hmem => ?_⟩
    exact (htag _ hmem).2 rfl

/-- A field's tag is scanned as a string. -/
theorem spelled_fieldTag (f : Field) : (Kind.str (fieldTag f)).Spelled :=
  spelled_tagLiteral (isInline_tagText f)

end SchemaToGo.Go
