import SchemaToGo.Text.CamelCase
import SchemaToGo.Proofs.Text.Casing
import SchemaToGo.Proofs.Text.Split
set_option autoImplicit false

/-!
# Words

The words of a text are its alphanumeric characters in their order.  A stretch of such characters is
cut only before characters in upper case, so every word of it but the first starts with one.
-/

namespace SchemaToGo.Text

/-! ## Cutting a stretch -/

/-- The word is one that a change of case has begun. -/
def StartsUpper (word : List Char) : Prop := ∃ c rest, word = c :: rest ∧ isUppercase c = true

/-- The words that a stretch is cut into are the stretch, none of them is empty, and each but the
first starts in upper case. -/
theorem cutAtCase_spec {word : List Char} {w : WordCase} (hword : w = .upper → word ≠ [])
    {t : List Char} (ht : t ≠ []) :
    ∃ first others, cutAtCase word w t = first :: others ∧ first ≠ [] ∧
      first ++ others.flatten = word.reverse ++ t ∧ ∀ o ∈ others, StartsUpper o := by
  -- a word that is begun with a character in upper case, or with one before it, starts with it
  have hstarts : ∀ {c : Char} {t first : List Char} {others : List (List Char)},
      isUppercase c = true → first ≠ [] → first ++ others.flatten = c :: t →
      StartsUpper first := by
    intro c t first others hc hne heq
    obtain ⟨d, rest, rfl⟩ := List.exists_cons_of_ne_nil hne
    rw [List.cons_append, List.cons.injEq] at heq
    exact ⟨d, rest, rfl, heq.1 ▸ hc⟩
  fun_induction cutAtCase word w t with
  | case1 => exact absurd rfl ht
  | case2 word w c => exact ⟨_, [], rfl, by simp, by simp, nofun⟩
  | case3 word w c next rest hcut ih =>
    obtain ⟨first, others, hrest, hne, heq, hothers⟩ := ih nofun (by simp)
    refine ⟨_, first :: others, by rw [hrest], by simp, by simp [heq], ?_⟩
    have hnext : isUppercase next = true := (Bool.and_eq_true _ _ ▸ hcut).2
    exact List.forall_mem_cons.mpr ⟨hstarts hnext hne heq, hothers⟩
  | case4 word w c next rest hkeep hcut ih =>
    obtain ⟨first, others, hrest, hne, heq, hothers⟩ := ih nofun (by simp)
    simp only [Bool.and_eq_true, decide_eq_true_eq] at hcut
    obtain ⟨⟨hupper, hc⟩, _⟩ := hcut
    refine ⟨_, first :: others, by rw [hrest], by simpa using hword hupper, by simp [heq], ?_⟩
    exact List.forall_mem_cons.mpr ⟨hstarts hc hne heq, hothers⟩
  | case5 word w c next rest hkeep hkeep' ih =>
    obtain ⟨first, others, hrest, hne, heq, hothers⟩ := ih (fun _ => by simp) (by simp)
    exact ⟨first, others, hrest, hne, by rw [heq]; simp, hothers⟩

/-- A stretch is cut from its first character on. -/
theorem cutAtCase_start {t : List Char} (ht : t ≠ []) :
    ∃ first others, cutAtCase [] .uncased t = first :: others ∧ first ≠ [] ∧
      first ++ others.flatten = t ∧ ∀ o ∈ others, StartsUpper o :=
  @cutAtCase_spec [] .uncased nofun t ht

/-- A stretch falls into words that make it up again. -/
theorem flatten_cutAtCase (t : List Char) : (cutAtCase [] .uncased t).flatten = t := by
  cases t with
  | nil => rfl
  | cons c rest =>
    obtain ⟨first, others, hcut, _, heq, _⟩ := cutAtCase_start (List.cons_ne_nil c rest)
    rw [hcut, List.flatten_cons, heq]

/-- A stretch is cut where upper case follows lower case. -/
theorem cutAtCase_append {word t : List Char} {w : WordCase} (ht : t ≠ [])
    (hlast : ∀ x ∈ t.getLast?, isLowercase x = true) {c : Char} (hc : isUppercase c = true)
    (rest : List Char) :
    cutAtCase word w (t ++ c :: rest) =
      cutAtCase word w t ++ cutAtCase [] .uncased (c :: rest) := by
  fun_induction cutAtCase word w t with
  | case1 => exact absurd rfl ht
  | case2 word w x =>
    have hafter : w.after x = .lower := if_pos (hlast x rfl)
    rw [List.singleton_append, cutAtCase, if_pos (by simp [hafter, hc]), List.singleton_append]
  | case3 word w x next after hcut ih =>
    rw [List.cons_append, List.cons_append, cutAtCase, if_pos hcut, List.cons_append]
    exact congrArg _ (ih (by simp) (by simpa using hlast))
  | case4 word w x next after hkeep hcut ih =>
    rw [List.cons_append, List.cons_append, cutAtCase, if_neg hkeep, if_pos hcut, List.cons_append]
    exact congrArg _ (ih (by simp) (by simpa using hlast))
  | case5 word w x next after hkeep hkeep' ih =>
    rw [List.cons_append, List.cons_append, cutAtCase, if_neg hkeep, if_neg hkeep']
    exact ih (by simp) (by simpa using hlast)

/-! ## Words of a text -/

/-- The words of a text are its alphanumeric characters. -/
theorem flatten_wordsOf (t : List Char) : (wordsOf t).flatten = t.filter isAlphanumeric := by
  have hcut : ∀ stretches : List (List Char),
      (stretches.flatMap (cutAtCase [] .uncased)).flatten = stretches.flatten := by
    intro stretches
    induction stretches with
    | nil => rfl
    | cons stretch rest ih =>
      rw [List.flatMap_cons, List.flatten_append, flatten_cutAtCase, ih, List.flatten_cons]
  unfold wordsOf
  rw [hcut, flatten_splitAll]
  simp

/-- A stretch of alphanumeric characters is one to be cut at its changes of case. -/
theorem wordsOf_of_isAlphanumeric {t : List Char} (h : ∀ c ∈ t, isAlphanumeric c = true) :
    wordsOf t = cutAtCase [] .uncased t := by
  unfold wordsOf
  rw [splitAll_of_not fun c hc => by simp [h c hc], List.flatMap_singleton]

/-- A text of alphanumeric characters falls into words of which each but the first starts in upper
case. -/
theorem wordsOf_eq {t : List Char} (h : ∀ c ∈ t, isAlphanumeric c = true) (ht : t ≠ []) :
    ∃ first others, wordsOf t = first :: others ∧ first ≠ [] ∧ first ++ others.flatten = t ∧
      ∀ o ∈ others, StartsUpper o := by
  obtain ⟨first, others, hcut, hne, heq, hothers⟩ := cutAtCase_start ht
  exact ⟨first, others, (wordsOf_of_isAlphanumeric h).trans hcut, hne, heq, hothers⟩

/-- The words of two texts are those of both in a row if upper case follows lower case. -/
theorem wordsOf_append {t u : List Char} (ht : ∀ c ∈ t, isAlphanumeric c = true)
    (hu : ∀ c ∈ u, isAlphanumeric c = true) (hlast : ∀ c ∈ t.getLast?, isLowercase c = true)
    (hstarts : StartsUpper u) : wordsOf (t ++ u) = wordsOf t ++ wordsOf u := by
  obtain ⟨c, rest, rfl, hc⟩ := hstarts
  rw [wordsOf_of_isAlphanumeric ht, wordsOf_of_isAlphanumeric hu,
    wordsOf_of_isAlphanumeric (List.forall_mem_append.mpr ⟨ht, hu⟩)]
  by_cases hempty : t = []
  · rw [hempty]
    rfl
  · exact cutAtCase_append hempty hlast hc rest

/-! ## Capitals -/

/-- Capitals and lower case neither change nor make characters without case. -/
theorem filter_isCaseless_capitalize (w : List Char) :
    (capitalize w).filter isCaseless = w.filter isCaseless := by
  have htail : ∀ t : List Char, (lowerTail t).filter isCaseless = t.filter isCaseless := by
    intro t
    fun_induction lowerTail t with
    | case1 => rfl
    | case2 => decide
    | case3 c rest _ ih =>
      rw [List.filter_append, filter_isCaseless_toLower, ih, ← List.filter_append,
        List.singleton_append]
  cases w with
  | nil => rfl
  | cons c rest =>
    rw [capitalize, List.filter_append, filter_isCaseless_toUpper, htail, ← List.filter_append,
      List.singleton_append]

/-- Upper camel case keeps the characters without case that stand in words. -/
theorem filter_isCaseless_upperCamelCase (t : List Char) :
    (upperCamelCase t).filter isCaseless = (t.filter isAlphanumeric).filter isCaseless := by
  have hwords : ∀ ws : List (List Char),
      (ws.flatMap capitalize).filter isCaseless = ws.flatten.filter isCaseless := by
    intro ws
    induction ws with
    | nil => rfl
    | cons w rest ih =>
      rw [List.flatMap_cons, List.filter_append, filter_isCaseless_capitalize, ih,
        List.flatten_cons, List.filter_append]
  unfold upperCamelCase
  rw [hwords, flatten_wordsOf]

end SchemaToGo.Text
