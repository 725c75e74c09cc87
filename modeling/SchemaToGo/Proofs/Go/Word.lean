import SchemaToGo.Go.Identifier
import SchemaToGo.Proofs.Text.Blank
set_option autoImplicit false

/-!
# Words

A word is a letter followed by letters and digits.  It is either an identifier or a keyword, and
which of the two it is the scanner leaves open.  Characters that mean something else to the scanner
are no part of words.
-/

namespace SchemaToGo.Go

/-- The text is an identifier or a keyword. -/
def isWord : List Char → Bool
  | [] => false
  | c :: rest => isLetter c && rest.all isWordChar

theorem isIdentifier_eq (t : List Char) : isIdentifier t = (isWord t && !isKeyword t) := by
  cases t <;> rfl

theorem isWord_of_isIdentifier {t : List Char} (h : isIdentifier t = true) :
    isWord t = true ∧ isKeyword t = false := by
  rw [isIdentifier_eq, Bool.and_eq_true, Bool.not_eq_true'] at h
  exact h

/-- A package is named by a word that is no keyword. -/
theorem isWord_of_isPackageName {t : List Char} (h : isPackageName t = true) :
    isWord t = true ∧ isKeyword t = false := by
  unfold isPackageName at h
  rw [Bool.and_eq_true, isIdentifier_eq, Bool.and_eq_true, Bool.not_eq_true'] at h
  exact h.2

/-- A word starts with a letter, and all its characters may stand in words. -/
theorem isWord_iff {t : List Char} :
    isWord t = true ↔ ∃ c rest, t = c :: rest ∧ isLetter c = true ∧ ∀ x ∈ rest, isWordChar x := by
  cases t with
  | nil => simp [isWord]
  | cons c rest =>
    simp only [isWord, Bool.and_eq_true, List.all_eq_true, List.cons.injEq]
    constructor
    · rintro ⟨hc, hrest⟩
      exact ⟨c, rest, ⟨rfl, rfl⟩, hc, hrest⟩
    · rintro ⟨_, _, ⟨rfl, rfl⟩, hc, hrest⟩
      exact ⟨hc, hrest⟩

theorem isWordChar_of_mem {t : List Char} (h : isWord t = true) {x : Char} (hx : x ∈ t) :
    isWordChar x = true := by
  obtain ⟨c, rest, rfl, hc, hrest⟩ := isWord_iff.mp h
  rcases List.mem_cons.mp hx with rfl | hx
  · simp [isWordChar, hc]
  · exact hrest x hx

/-- A word stays a word when characters of words follow it. -/
theorem isWord_append {t u : List Char} (h : isWord t = true)
    (hu : ∀ x ∈ u, isWordChar x = true) : isWord (t ++ u) = true := by
  obtain ⟨c, rest, rfl, hc, hrest⟩ := isWord_iff.mp h
  refine isWord_iff.mpr ⟨c, rest ++ u, rfl, hc, fun x hx => ?_⟩
  rcases List.mem_append.mp hx with hx | hx
  · exact hrest x hx
  · exact hu x hx

theorem exists_digit {c : Char} (h : c.isDigit = true) :
    ∃ n < 10, c = Char.ofNat (48 + n) := by
  simp only [Char.isDigit, ge_iff_le, Bool.and_eq_true, decide_eq_true_eq,
    UInt32.le_iff_toNat_le] at h
  change 48 ≤ c.toNat ∧ c.toNat ≤ 57 at h
  refine ⟨c.toNat - 48, by omega, ?_⟩
  rw [Nat.add_sub_cancel' h.1, Char.ofNat_toNat]

/-- The decimal digits may stand in words. -/
theorem isWordChar_of_isDigit {c : Char} (h : c.isDigit = true) : isWordChar c = true := by
  have hall : ∀ n < 10, isWordChar (Char.ofNat (48 + n)) = true := by decide
  obtain ⟨n, hn, rfl⟩ := exists_digit h
  exact hall n hn

/-- No decimal digit is a letter. -/
theorem isLetter_of_isDigit {c : Char} (h : c.isDigit = true) : isLetter c = false := by
  have hall : ∀ n < 10, isLetter (Char.ofNat (48 + n)) = false := by decide
  obtain ⟨n, hn, rfl⟩ := exists_digit h
  exact hall n hn

/-- Characters with a meaning of their own to the scanner. -/
def separators : List Char :=
  ['\n', ' ', '\t', '\r', '/', '`', '"', ';', '*', '[', ']', '\x7b', '\x7d', '.']

theorem isWordChar_of_separator {c : Char} (h : c ∈ separators) : isWordChar c = false := by
  have hnone : separators.any isWordChar = false := by decide
  exact eq_false_of_ne_true (List.any_eq_false.mp hnone c h)

theorem isLetter_of_separator {c : Char} (h : c ∈ separators) : isLetter c = false :=
  (Bool.or_eq_false_iff.mp (isWordChar_of_separator h)).1

/-- No blank stands in a word. -/
theorem isBlank_of_isWordChar {c : Char} (h : isWordChar c = true) : Text.isBlank c = false := by
  have hnone : Text.blankCodes.any (fun n => isWordChar (Char.ofNat n)) = false := by decide +kernel
  refine eq_false_of_ne_true fun hblank => ?_
  obtain ⟨n, hn, rfl⟩ := Text.exists_blankCode hblank
  exact List.any_eq_false.mp hnone n hn h

/-- A word ends in ink. -/
theorem endsInk_of_isWord {t : List Char} (h : isWord t = true) : Text.EndsInk t := by
  refine Text.endsInk_of_forall ?_ fun c hc => isBlank_of_isWordChar (isWordChar_of_mem h hc)
  rintro rfl
  cases h

end SchemaToGo.Go
