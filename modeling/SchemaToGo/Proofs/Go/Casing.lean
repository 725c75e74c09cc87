import SchemaToGo.Proofs.Go.Word
import SchemaToGo.Proofs.Text.Casing
import SchemaToGo.Text.Alphanumeric
set_option autoImplicit false

/-!
# Case mappings and identifiers

What identifiers keep of the case forms of characters.  A character of an identifier has exactly one
such character in its lower-case form.  Of its upper-case form the first one that is kept, if any
is, is an upper-case letter, unless the character has no upper-case form of its own.
-/

namespace SchemaToGo.Go

open Text (CodeSet)

variable {c : Char}

/-! ## Tables -/

theorem isTooNew_of_isWordChar (h : isWordChar c = true) : isTooNew c = false := by
  have hunderscore : isTooNew '_' = false := by decide
  unfold isWordChar isLetter isDigit at h
  simp only [Bool.or_eq_true, Bool.and_eq_true, beq_iff_eq, Bool.not_eq_true'] at h
  rcases h with (rfl | ⟨_, hnew⟩) | ⟨_, hnew⟩
  · exact hunderscore
  · exact hnew
  · exact hnew

theorem isLetter_of_upperLetter (h : CodeSet.upperLetters.contains c = true)
    (hnew : isTooNew c = false) : isLetter c = true := by
  simp [isLetter, Text.isLetter, h, hnew]

theorem isLetter_of_lowerLetter (h : CodeSet.lowerLetters.contains c = true)
    (hnew : isTooNew c = false) : isLetter c = true := by
  simp [isLetter, Text.isLetter, h, hnew]

theorem isWordChar_of_isLetter (h : isLetter c = true) : isWordChar c = true := by
  simp [isWordChar, h]

/-- Words of texts have all characters of identifiers but the underscore. -/
theorem isAlphanumeric_of_isWordChar (h : isWordChar c = true) (hc : c ≠ '_') :
    Text.isAlphanumeric c = true := by
  unfold isWordChar isLetter isDigit Text.isDecimalDigit at h
  simp only [Bool.or_eq_true, Bool.and_eq_true, beq_iff_eq] at h
  unfold Text.isAlphanumeric Text.isAlphabetic Text.isNumber
  rcases h with (rfl | ⟨hletter, _⟩) | ⟨hdigit, _⟩
  · exact absurd rfl hc
  · simp [hletter]
  · simp [hdigit]

/-- The code points of letters. -/
def letterCodes : CodeSet :=
  CodeSet.lowerLetters ++ CodeSet.upperLetters ++ CodeSet.otherLetters ++ CodeSet.titleLetters ++
    CodeSet.modifierLetters

theorem has_letterCodes (h : Text.isLetter c = true) : letterCodes.Has c.toNat := by
  unfold Text.isLetter at h
  unfold letterCodes
  simp only [Bool.or_eq_true] at h
  simp only [CodeSet.has_append]
  exact h.imp (Or.imp (Or.imp (Or.imp CodeSet.has_of_contains CodeSet.has_of_contains)
    CodeSet.has_of_contains) CodeSet.has_of_contains) CodeSet.has_of_contains

/-- No digits, Roman numerals or circled letters are letters. -/
theorem letterCodes_masks :
    CodeSet.decimalDigits.mask &&& letterCodes.mask = 0 ∧
      CodeSet.otherUppercase.mask &&& letterCodes.mask = 0 ∧
      CodeSet.otherUppercase.mask &&& CodeSet.decimalDigits.mask = 0 := by
  decide +kernel

/-- No digit is a letter. -/
theorem isDigit_of_isLetter (h : isLetter c = true) : isDigit c = false := by
  refine eq_false_of_ne_true fun hdigit => ?_
  have hdecimal : CodeSet.decimalDigits.contains c = true := ((Bool.and_eq_true _ _).mp hdigit).1
  rcases (Bool.or_eq_true _ _).mp h with hunderscore | hletter
  · rw [beq_iff_eq.mp hunderscore] at hdecimal
    exact absurd hdecimal (by decide)
  · have hhas := has_letterCodes ((Bool.and_eq_true _ _).mp hletter).1
    exact (CodeSet.has_of_contains hdecimal).not_of_and letterCodes_masks.1 hhas

/-- Roman numerals and circled letters are no part of identifiers. -/
theorem isWordChar_of_otherUppercase (h : CodeSet.otherUppercase.contains c = true) :
    isWordChar c = false := by
  obtain ⟨_, hletters, hdigits⟩ := letterCodes_masks
  have hunderscore : c ≠ '_' := by
    rintro rfl
    exact absurd h (by decide)
  refine eq_false_of_ne_true fun hword => ?_
  unfold isWordChar isLetter isDigit at hword
  simp only [Bool.or_eq_true, Bool.and_eq_true, beq_iff_eq, hunderscore, false_or] at hword
  rcases hword with ⟨hletter, _⟩ | ⟨hdigit, _⟩
  · exact (CodeSet.has_of_contains h).not_of_and hletters (has_letterCodes hletter)
  · exact (CodeSet.has_of_contains h).not_of_and hdigits (CodeSet.has_of_contains hdigit)

/-- What identifiers have in upper case are upper-case letters. -/
theorem upperLetter_of_isUppercase (h : Text.isUppercase c = true) (hc : isWordChar c = true) :
    CodeSet.upperLetters.contains c = true := by
  rcases (Bool.or_eq_true _ _).mp h with hletter | hother
  · exact hletter
  · rw [isWordChar_of_otherUppercase hother] at hc
    cases hc

/-! ## Lower-case forms -/

/-- The numeral of the characters in upper case that identifiers do not admit. -/
def oddMask : Nat := CodeSet.mask (CodeSet.otherUppercase ++ CodeSet.newInUnicode17)

theorem testBit_oddMask (h : isWordChar c = true) : oddMask.testBit c.toNat = false := by
  have hascending : CodeSet.newInUnicode17.IsAscending := by decide
  refine eq_false_of_ne_true fun hodd => ?_
  rcases CodeSet.has_append.mp ((CodeSet.testBit_mask _ _).mp hodd) with hother | hnew
  · rw [isWordChar_of_otherUppercase (CodeSet.containsCode_of_has (by decide) hother)] at h
    cases h
  · have htoo : isTooNew c = true := CodeSet.containsCode_of_has hascending hnew
    rw [isTooNew_of_isWordChar h] at htoo
    cases htoo

/-- All other characters are shifted to lower-case letters that are no new ones. -/
theorem lowerShifts_masks :
    Text.Shift.images oddMask Text.lowerShifts ||| CodeSet.lowerLetters.mask =
        CodeSet.lowerLetters.mask ∧
      Text.Shift.images oddMask Text.lowerShifts &&& CodeSet.newInUnicode17.mask = 0 := by
  decide +kernel

/-- A character of an identifier that is shifted to lower case becomes one. -/
theorem isWordChar_of_shifted {s : Text.Shift} (hs : s ∈ Text.lowerShifts)
    (hc : s.run.contains c.toNat = true) (h : isWordChar c = true) :
    isWordChar (Char.ofNat (Int.toNat (c.toNat + s.distance))) = true := by
  obtain ⟨hascending, hscalar⟩ := Text.letters_wellFormed.2
  obtain ⟨hlower, hold⟩ := lowerShifts_masks
  have himage := Text.Shift.testBit_images hs hc (testBit_oddMask h)
  have hletter := (CodeSet.testBit_mask _ _).mp (Text.testBit_of_or himage hlower)
  have hnew : ¬ CodeSet.newInUnicode17.Has (Int.toNat (c.toNat + s.distance)) := by
    rw [← CodeSet.testBit_mask, Text.testBit_of_and himage hold]
    exact Bool.false_ne_true
  refine isWordChar_of_isLetter (isLetter_of_lowerLetter ?_ ?_)
  · exact CodeSet.contains_ofNat hascending hscalar hletter
  · exact CodeSet.not_contains_ofNat hscalar hletter hnew

/-- The lower-case form of a character of an identifier is one such character, and that of `İ` has a
dot besides. -/
theorem toLower_cases (h : isWordChar c = true) :
    c = 'İ' ∨ ∃ d, isWordChar d = true ∧ Text.toLower c = [d] := by
  rcases Text.mapCase_cases Text.lowerExpansions Text.lowerShifts c with ⟨e, he, hcode, _⟩ |
    ⟨s, hs, hn, heq⟩ | heq
  · refine .inl ?_
    rw [← Char.ofNat_toNat c, ← hcode, List.mem_singleton.mp he]
  · exact .inr ⟨_, isWordChar_of_shifted hs hn h, heq⟩
  · exact .inr ⟨c, h, heq⟩

/-- Identifiers keep one character of a lower-case form, and only if the form is the character
itself it is that one. -/
theorem exists_filter_toLower (h : isWordChar c = true) :
    ∃ d, (Text.toLower c).filter isWordChar = [d] ∧ (d = c → Text.toLower c = [c]) := by
  rcases toLower_cases h with rfl | ⟨d, hd, heq⟩
  · have hdot : (Text.toLower 'İ').filter isWordChar = ['i'] := by decide
    refine ⟨'i', hdot, fun hne => ?_⟩
    exact absurd hne (by decide)
  · refine ⟨d, ?_, fun hdc => by rw [heq, hdc]⟩
    rw [heq, List.filter_cons_of_pos hd, List.filter_nil]

/-! ## Upper-case forms -/

/-- What is kept of an upper-case form starts with an upper-case letter, unless the character has no
upper-case form of its own or is `ŉ`. -/
theorem upperLetter_of_filter_toUpper {d : Char} {rest : List Char}
    (h : (Text.toUpper c).filter isWordChar = d :: rest) :
    Text.toUpper c = [c] ∨ c = 'ŉ' ∨ CodeSet.upperLetters.contains d = true := by
  rcases Text.toUpper_cases c with heq | rfl | ⟨x, hx, heq⟩ | ⟨x, others, hx, hold, heq⟩
  · exact .inl heq
  · exact .inr (.inl rfl)
  · have hd : d ∈ [x].filter isWordChar := by
      rw [← heq, h]
      exact List.mem_cons_self
    obtain ⟨hmem, hword⟩ := List.mem_filter.mp hd
    rw [List.mem_singleton.mp hmem] at hword ⊢
    exact .inr (.inr (upperLetter_of_isUppercase hx hword))
  · rw [heq, List.filter_cons_of_pos (isWordChar_of_isLetter (isLetter_of_upperLetter hx hold)),
      List.cons.injEq] at h
    exact .inr (.inr (h.1 ▸ hx))

/-- If nothing but the character is kept of its upper-case form, the form is the character. -/
theorem toUpper_eq_of_filter (h : (Text.toUpper c).filter isWordChar = [c]) :
    Text.toUpper c = [c] := by
  rcases upperLetter_of_filter_toUpper h with heq | rfl | hupper
  · exact heq
  · exact absurd h (by decide)
  · refine Text.toUpper_eq_self ?_
    unfold Text.isUppercase
    rw [hupper, Bool.true_or]

end SchemaToGo.Go
