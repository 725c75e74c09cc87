import SchemaToGo.Text.Blank
set_option autoImplicit false

/-!
# Trimmed texts

A text is trimmed at its end exactly if it is empty or ends in ink, a character that is not blank.
-/

namespace SchemaToGo.Text

/-- The text ends in a character that is not blank. -/
def EndsInk (t : List Char) : Prop := ∃ before c, t = before ++ [c] ∧ isBlank c = false

theorem endsInk_singleton {c : Char} (h : isBlank c = false) : EndsInk [c] := ⟨[], c, rfl, h⟩

theorem EndsInk.append {t : List Char} (h : EndsInk t) (before : List Char) :
    EndsInk (before ++ t) := by
  obtain ⟨initial, c, rfl, hc⟩ := h
  exact ⟨before ++ initial, c, by rw [List.append_assoc], hc⟩

theorem EndsInk.ne_nil {t : List Char} (h : EndsInk t) : t ≠ [] := by
  obtain ⟨before, c, rfl, _⟩ := h
  simp

/-- A text of ink ends in ink. -/
theorem endsInk_of_forall {t : List Char} (ht : t ≠ []) (h : ∀ c ∈ t, isBlank c = false) :
    EndsInk t :=
  ⟨t.dropLast, t.getLast ht, (List.dropLast_concat_getLast ht).symm, h _ (List.getLast_mem ht)⟩

/-- A text that ends in ink is not trimmed. -/
theorem EndsInk.trimEnd {t : List Char} (h : EndsInk t) : trimEnd t = t := by
  obtain ⟨before, c, rfl, hc⟩ := h
  rw [trimEnd_append_singleton, hc]
  rfl

/-- What a text is trimmed to is empty or ends in ink. -/
theorem trimEnd_eq_nil_or_endsInk (t : List Char) : trimEnd t = [] ∨ EndsInk (trimEnd t) := by
  cases hink : t.reverse.dropWhile isBlank with
  | nil => exact .inl (by unfold trimEnd; rw [hink]; rfl)
  | cons c before =>
    refine .inr ⟨before.reverse, c, by unfold trimEnd; rw [hink, List.reverse_cons], ?_⟩
    have hne : t.reverse.dropWhile isBlank ≠ [] := by
      rw [hink]
      exact List.cons_ne_nil _ _
    have hhead := List.head_dropWhile_not isBlank hne
    simp only [hink, List.head_cons] at hhead
    exact eq_false_of_ne_true (by simpa using hhead)

theorem trimEnd_trimEnd (t : List Char) : trimEnd (trimEnd t) = trimEnd t := by
  rcases trimEnd_eq_nil_or_endsInk t with h | h
  · rw [h, trimEnd_nil]
  · exact h.trimEnd

/-- Only what follows the ink is trimmed. -/
theorem trimEnd_append {t : List Char} (h : EndsInk t) (u : List Char) :
    trimEnd (t ++ u) = t ++ trimEnd u := by
  have ht : (t.reverse.dropWhile isBlank).reverse = t := h.trimEnd
  unfold trimEnd
  rw [List.reverse_append, List.dropWhile_append]
  split
  · next hnil =>
    rw [List.isEmpty_iff.mp hnil, ht]
    simp
  · rw [List.reverse_append, List.reverse_reverse]

/-- The text after some ink may be trimmed, and the whole ends in ink. -/
theorem endsInk_append_trimEnd {t : List Char} (h : EndsInk t) (u : List Char) :
    EndsInk (t ++ trimEnd u) := by
  rcases trimEnd_eq_nil_or_endsInk u with hu | hu
  · rw [hu, List.append_nil]
    exact h
  · exact hu.append t

/-! ## The blanks -/

/-- The codes of the blanks. -/
def blankCodes : List Nat :=
  List.range' 0x09 5 ++ [0x20, 0x85, 0xA0, 0x1680] ++ List.range' 0x2000 11 ++
    [0x2028, 0x2029, 0x202F, 0x205F, 0x3000]

theorem exists_blankCode {c : Char} (h : isBlank c = true) :
    ∃ n ∈ blankCodes, c = Char.ofNat n := by
  refine ⟨c.toNat, ?_, (Char.ofNat_toNat c).symm⟩
  have hspace : c = ' ' ↔ c.toNat = 0x20 :=
    ⟨fun hc => by rw [hc]; rfl, fun hc => by rw [← Char.ofNat_toNat c, hc]⟩
  simp only [isBlank, Bool.or_eq_true, Bool.and_eq_true, decide_eq_true_eq, beq_iff_eq,
    hspace] at h
  simp only [blankCodes, List.mem_append, List.mem_range'_1, List.mem_cons, List.not_mem_nil,
    or_false]
  omega

end SchemaToGo.Text
