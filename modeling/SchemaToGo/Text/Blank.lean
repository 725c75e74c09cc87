set_option autoImplicit false

/-!
# Blank characters and trimming

The characters with the white-space property, which descriptions, comments and laid out lines are
trimmed of.  It is wider than the blanks a scanner skips: it takes in the line and paragraph
separators and the spaces of all widths.

Normative source: SPEC_FULL.md section 10 for descriptions and section 4.4 for comments.
-/

namespace SchemaToGo.Text

/-- A character with the white-space property. -/
def isBlank (c : Char) : Bool :=
  (0x09 ≤ c.toNat && c.toNat ≤ 0x0D) || c == ' ' || c.toNat == 0x85 || c.toNat == 0xA0 ||
    c.toNat == 0x1680 || (0x2000 ≤ c.toNat && c.toNat ≤ 0x200A) || c.toNat == 0x2028 ||
    c.toNat == 0x2029 || c.toNat == 0x202F || c.toNat == 0x205F || c.toNat == 0x3000

/-- A control character (category Cc). -/
def isControl (c : Char) : Bool :=
  c.toNat < 0x20 || (0x7F ≤ c.toNat && c.toNat ≤ 0x9F)

/-- The text without the blanks it starts with. -/
def trimStart (t : List Char) : List Char := t.dropWhile isBlank

/-- The text without the blanks it ends with. -/
def trimEnd (t : List Char) : List Char := (t.reverse.dropWhile isBlank).reverse

/-- The text without the blanks around it. -/
def trim (t : List Char) : List Char := trimEnd (trimStart t)

@[simp] theorem trimEnd_nil : trimEnd [] = [] := rfl

/-- A last character decides whether anything is trimmed. -/
theorem trimEnd_append_singleton (t : List Char) (c : Char) :
    trimEnd (t ++ [c]) = if isBlank c then trimEnd t else t ++ [c] := by
  cases h : isBlank c <;> simp [trimEnd, h]

/-- Trimming only drops blanks at the end. -/
theorem exists_trimEnd_append (t : List Char) :
    ∃ blanks, t = trimEnd t ++ blanks ∧ ∀ c ∈ blanks, isBlank c = true := by
  refine ⟨(t.reverse.takeWhile isBlank).reverse, ?_, ?_⟩
  · unfold trimEnd
    rw [← List.reverse_append, List.takeWhile_append_dropWhile, List.reverse_reverse]
  · intro c hc
    rw [List.mem_reverse] at hc
    exact (List.all_eq_true.mp (List.all_takeWhile)) c hc

end SchemaToGo.Text
