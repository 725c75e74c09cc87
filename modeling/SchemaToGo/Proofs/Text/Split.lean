import SchemaToGo.Text.Split
set_option autoImplicit false

/-!
# Splitting a text

A text without separators is one stretch, and a separator ends the stretch before it.  A text is cut
before a mark if no other mark starts later.
-/

namespace SchemaToGo.Text

section

variable {p : Char → Bool}

/-- A text always has a first stretch. -/
theorem exists_splitAll (p : Char → Bool) (t : List Char) :
    ∃ first others, splitAll p t = first :: others := by
  cases hsplit : splitAll p t with
  | nil =>
    have hlength := length_splitAll p t
    rw [hsplit] at hlength
    exact nomatch hlength
  | cons first others => exact ⟨first, others, rfl⟩

theorem splitAll_cons_of_neg {c : Char} (h : p c = false) {t first : List Char}
    {others : List (List Char)} (hsplit : splitAll p t = first :: others) :
    splitAll p (c :: t) = (c :: first) :: others := by
  simp [splitAll, h, hsplit]

/-- A text without separators is one stretch. -/
theorem splitAll_of_not {t : List Char} (h : ∀ c ∈ t, p c = false) : splitAll p t = [t] := by
  induction t with
  | nil => rfl
  | cons c rest ih =>
    exact splitAll_cons_of_neg (h c List.mem_cons_self)
      (ih fun x hx => h x (List.mem_cons_of_mem _ hx))

/-- A text is split on both sides of a separator. -/
theorem splitAll_append_mark {c : Char} (hc : p c = true) (t rest : List Char) :
    splitAll p (t ++ c :: rest) = splitAll p t ++ splitAll p rest := by
  induction t with
  | nil => exact splitAll_cons_of_pos hc rest
  | cons x t ih =>
    obtain ⟨first, others, hsplit⟩ := exists_splitAll p t
    rw [hsplit] at ih
    cases hx : p x with
    | true =>
      rw [List.cons_append, splitAll_cons_of_pos hx, splitAll_cons_of_pos hx, ih, hsplit]
      rfl
    | false =>
      rw [List.cons_append, splitAll_cons_of_neg hx ih, splitAll_cons_of_neg hx hsplit]
      rfl

/-- The first separator ends the first stretch. -/
theorem splitAll_append_cons {t : List Char} (h : ∀ c ∈ t, p c = false) {c : Char}
    (hc : p c = true) (rest : List Char) :
    splitAll p (t ++ c :: rest) = t :: splitAll p rest := by
  rw [splitAll_append_mark hc, splitAll_of_not h, List.singleton_append]

/-- The stretches of a text are the text without its separators. -/
theorem flatten_splitAll (p : Char → Bool) (t : List Char) :
    (splitAll p t).flatten = t.filter fun c => !p c := by
  induction t with
  | nil => rfl
  | cons c t ih =>
    cases hc : p c with
    | true => rw [splitAll_cons_of_pos hc, List.filter_cons_of_neg (by simp [hc]), ← ih]; rfl
    | false =>
      obtain ⟨first, others, hsplit⟩ := exists_splitAll p t
      rw [splitAll_cons_of_neg hc hsplit, List.filter_cons_of_pos (by simp [hc]), ← ih, hsplit]
      rfl

/-- No stretch has a separator in it. -/
theorem not_of_mem_splitAll {t line : List Char} (hline : line ∈ splitAll p t) :
    ∀ c ∈ line, p c = false := by
  induction t generalizing line with
  | nil =>
    rw [List.mem_singleton.mp hline]
    exact nofun
  | cons x t ih =>
    obtain ⟨first, others, hsplit⟩ := exists_splitAll p t
    cases hx : p x with
    | true =>
      rw [splitAll_cons_of_pos hx] at hline
      rcases List.mem_cons.mp hline with rfl | hline
      · exact nofun
      · exact ih hline
    | false =>
      rw [splitAll_cons_of_neg hx hsplit] at hline
      rw [hsplit] at ih
      rcases List.mem_cons.mp hline with rfl | hline
      · intro c hc
        rcases List.mem_cons.mp hc with rfl | hc
        · exact hx
        · exact ih List.mem_cons_self c hc
      · exact ih (List.mem_cons_of_mem _ hline)

end

/-! ## Cutting before a mark -/

section

variable {mark : List Char}

theorem beforeLast?_eq_none {t : List Char} (h : ¬ mark <:+: t) : beforeLast? mark t = none := by
  induction t with
  | nil => exact if_neg fun hmark : mark = [] => h (hmark ▸ List.nil_infix)
  | cons c rest ih =>
    rw [beforeLast?, ih fun hrest => h (hrest.trans (List.suffix_cons c rest).isInfix)]
    exact if_neg fun hmark => h (List.isPrefixOf_iff_prefix.mp hmark).isInfix

/-- A mark further on hides what is before. -/
theorem beforeLast?_append {t before : List Char} (h : beforeLast? mark t = some before)
    (front : List Char) : beforeLast? mark (front ++ t) = some (front ++ before) := by
  induction front with
  | nil => exact h
  | cons c front ih =>
    rw [List.cons_append, beforeLast?, ih]
    rfl

/-- A text is cut before a mark if no other mark starts later. -/
theorem beforeLast?_mark {rest : List Char} (h : ¬ mark <:+: (mark ++ rest).tail)
    (before : List Char) : beforeLast? mark (before ++ (mark ++ rest)) = some before := by
  have hmark : beforeLast? mark (mark ++ rest) = some [] := by
    cases mark with
    | nil => exact absurd List.nil_infix h
    | cons c mark =>
      rw [List.cons_append, List.tail_cons] at h
      rw [List.cons_append, beforeLast?, beforeLast?_eq_none h]
      exact if_pos (List.isPrefixOf_iff_prefix.mpr (List.prefix_append (c :: mark) rest))
  have happend := beforeLast?_append hmark before
  rwa [List.append_nil] at happend

end

end SchemaToGo.Text
