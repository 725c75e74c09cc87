import SchemaToGo.Proofs.Go.File.Reread
set_option autoImplicit false

/-!
# Formatting changes layout only

A formatted text says the canonical file of the text it was made from.  So it is formatted to
itself, and its tokens are those of the first text, semicolons and the blanks at the ends of
comments apart.
-/

namespace SchemaToGo.Go

/-- The file that a text says is proper. -/
theorem properItems_of_readFile {t : List Char} {its : List Item} (h : readFile t = .ok its) :
    ProperItems false its := by
  obtain ⟨r, hr, hits⟩ := readFile_eq_ok_iff.mp h
  exact properItems_of_readsItems hits (spelled_of_scan hr) (isChain_of_scan hr)

/-- Formatting a formatted text changes nothing. -/
theorem format_idempotent {s t : String} (h : format s = .ok t) : format t = .ok t := by
  obtain ⟨its, hread, rfl⟩ := format_eq_ok_iff.mp h
  have hproper := properItems_of_readFile hread
  refine format_eq_ok_iff.mpr ⟨canonicalFile its, ?_, ?_⟩
  · rw [String.toList_ofList]
    exact readFile_fileText hproper
  · rw [fileText_canonicalFile hproper]

/-- A struct on one line is laid out on several, which stay as they are. -/
theorem format_idempotent_struct :
    let s := "package p // b \ntype T struct \x7b A int; Bc *string `t`; // c\n D.E \x7d"
    let t := "package p // b\ntype T struct \x7b\n\tA  int\n\tBc *string `t` // c\n\tD.E\n\x7d\n"
    format s = .ok t ∧ format t = .ok t := by
  intro s t
  have hs : format s = .ok t := toOption_eq_some (by decide +kernel)
  exact ⟨hs, format_idempotent hs⟩

/-! ## Tokens -/

/-- Apart from semicolons, the tokens of marks are all there is. -/
theorem filter_withSemicolons (due : Bool) (ms : List Mark) :
    ((withSemicolons due ms).filter fun k => !k.isSemicolon) =
      (code ms).filter fun k => !k.isSemicolon := by
  have hinserted : ∀ (b : Bool) (ks : List Kind),
      (((if b then [Kind.semicolon true] else []) ++ ks).filter fun k => !k.isSemicolon) =
        ks.filter fun k => !k.isSemicolon := by
    intro b ks
    cases b <;> rfl
  induction ms generalizing due with
  | nil =>
    have hnil : withSemicolons due [] = (if due then [Kind.semicolon true] else []) ++ [] :=
      (List.append_nil _).symm
    rw [hnil, hinserted]
    rfl
  | cons m rest ih =>
    cases m with
    | feed => exact (hinserted due _).trans (ih false)
    | token k =>
      refine (hinserted (due && k.isComment) _).trans ?_
      show (k :: withSemicolons k.endsStatement rest).filter _ = (k :: code rest).filter _
      rw [List.filter_cons, List.filter_cons, ih]

/-- No semicolon is significant. -/
theorem filter_significant (ks : List Kind) :
    ((significant ks).filter fun k => !k.isSemicolon) = significant ks := by
  refine List.filter_eq_self.mpr fun k hk => ?_
  obtain ⟨l, hl, rfl⟩ := List.mem_map.mp hk
  have hnone := (List.mem_filter.mp hl).2
  cases l <;> exact hnone

/-- A formatted text has the tokens of the text it was made from, in the same order: only
semicolons may differ, and comments lose the blanks at their ends. -/
theorem tokens_of_format {s t : String} (h : format s = .ok t) :
    ∃ r r', scan s.toList = .ok r ∧ scan t.toList = .ok r' ∧
      ((r'.tokens.map Token.kind).filter fun k => !k.isSemicolon) =
        ((r.tokens.map Token.kind).filter fun k => !k.isSemicolon).map Kind.trimmed := by
  obtain ⟨its, hread, rfl⟩ := format_eq_ok_iff.mp h
  obtain ⟨r, hr, hits⟩ := readFile_eq_ok_iff.mp hread
  have hlegible : Legible r.tokens := spelled_of_scan hr
  obtain ⟨r', hr', hglances⟩ := scan_of_cuts (cuts_fileText (properItems_of_readFile hread))
  refine ⟨r, r', hr, by rw [String.toList_ofList]; exact hr', ?_⟩
  show _ = significant (r.tokens.map Token.kind)
  rw [map_kind_of_glances hglances, filter_withSemicolons, code_fileMarks,
    code_of_readsItems hits hlegible, filter_significant]

/-- Carriage returns in a raw string are no part of it, so both texts have the same tag. -/
theorem tokens_of_format_raw :
    let s := "package p;type T struct \x7bA int `a\r\nb` // c \n\x7d"
    let t := "package p\n\ntype T struct \x7b\n\tA int `a\nb` // c\n\x7d\n"
    format s = .ok t ∧ ∃ r r', scan s.toList = .ok r ∧ scan t.toList = .ok r' ∧
      ((r'.tokens.map Token.kind).filter fun k => !k.isSemicolon) =
        ((r.tokens.map Token.kind).filter fun k => !k.isSemicolon).map Kind.trimmed := by
  intro s t
  have hs : format s = .ok t := toOption_eq_some (by decide +kernel)
  exact ⟨hs, tokens_of_format hs⟩

end SchemaToGo.Go
