import SchemaToGo.Proofs.Naming.Exported
import SchemaToGo.Proofs.Text.CamelCase
set_option autoImplicit false

/-!
# Names in camel case

Names that are put together of names are converted like any other text.  The conversion changes
nothing exactly if the name is in camel case already: `forType_none_eq_iff`.  A number that makes a
name free does not undo a change: `isFreed_iff_isCamel`.
-/

namespace SchemaToGo.Naming

/-- The name is in upper camel case: its words are all capitalized. -/
structure IsCamel (name : String) : Prop where
  word : IsWord name
  plain : '_' ∉ name.toList
  capital : ∀ w ∈ Text.wordsOf name.toList, Text.capitalize w = w

/-! ## Words that are kept -/

/-- What is kept of a text does not depend on characters that are dropped before. -/
theorem filter_filter_of_imp {p q : Char → Bool} (h : ∀ c, p c = true → q c = true)
    (t : List Char) : (t.filter q).filter p = t.filter p := by
  rw [List.filter_filter]
  exact List.filter_congr fun c _ => by simpa using h c

section

variable {t : List Char}

/-- Identifiers keep as many characters of the tail of a word as the tail has, and all of them only
if the tail is in lower case. -/
theorem filter_lowerTail (h : ∀ c ∈ t, Go.isWordChar c = true) :
    ((Text.lowerTail t).filter Go.isWordChar).length = t.length ∧
      ((Text.lowerTail t).filter Go.isWordChar = t → Text.lowerTail t = t) := by
  fun_induction Text.lowerTail t with
  | case1 => exact ⟨rfl, fun _ => rfl⟩
  | case2 =>
    have hsigma : ['ς'].filter Go.isWordChar = ['ς'] := by decide
    refine ⟨by rw [hsigma]; rfl, fun heq => ?_⟩
    rw [hsigma] at heq
    exact absurd heq (by decide)
  | case3 c rest _ ih =>
    obtain ⟨hlength, hlower⟩ := ih fun x hx => h x (List.mem_cons_of_mem _ hx)
    obtain ⟨d, hd, hself⟩ := Go.exists_filter_toLower (h c List.mem_cons_self)
    rw [List.filter_append, hd, List.singleton_append]
    refine ⟨by rw [List.length_cons, hlength, List.length_cons], fun heq => ?_⟩
    rw [List.cons.injEq] at heq
    rw [hself heq.1, hlower heq.2, List.singleton_append]

/-- If a word is kept of its capitalized form, the form is the word. -/
theorem capitalize_eq_of_filter (h : ∀ c ∈ t, Go.isWordChar c = true)
    (heq : (Text.capitalize t).filter Go.isWordChar = t) : Text.capitalize t = t := by
  cases t with
  | nil => rfl
  | cons c rest =>
    obtain ⟨hlength, hlower⟩ := filter_lowerTail fun x hx => h x (List.mem_cons_of_mem _ hx)
    rw [Text.capitalize, List.filter_append, ← List.singleton_append] at heq
    obtain ⟨hupper, htail⟩ := List.append_inj' heq hlength
    rw [Text.capitalize, Go.toUpper_eq_of_filter hupper, hlower htail, List.singleton_append]

/-- Identifiers keep as many characters of the capitalized form of a word as the word has, if it
starts in upper case. -/
theorem length_filter_capitalize (h : ∀ c ∈ t, Go.isWordChar c = true)
    (hstarts : Text.StartsUpper t) :
    ((Text.capitalize t).filter Go.isWordChar).length = t.length := by
  obtain ⟨c, rest, rfl, hc⟩ := hstarts
  obtain ⟨hlength, _⟩ := filter_lowerTail fun x hx => h x (List.mem_cons_of_mem _ hx)
  rw [Text.capitalize, Text.toUpper_eq_self hc, List.singleton_append,
    List.filter_cons_of_pos (h c List.mem_cons_self), List.length_cons, hlength, List.length_cons]

end

/-- If words of which none changes its length are together what they were, none has changed. -/
theorem eq_of_flatMap_eq {f : List Char → List Char} {ws : List (List Char)}
    (hlength : ∀ w ∈ ws, (f w).length = w.length) (h : ws.flatMap f = ws.flatten) :
    ∀ w ∈ ws, f w = w := by
  induction ws with
  | nil => exact nofun
  | cons w rest ih =>
    rw [List.flatMap_cons, List.flatten_cons] at h
    obtain ⟨hw, hrest⟩ := List.append_inj h (hlength w List.mem_cons_self)
    exact List.forall_mem_cons.mpr
      ⟨hw, ih (fun w' hw' => hlength w' (List.mem_cons_of_mem _ hw')) hrest⟩

/-- What is kept of a text is what is kept of its words. -/
theorem keptChars_eq (s : String) :
    keptChars s =
      (Text.wordsOf s.toList).flatMap fun w => (Text.capitalize w).filter Go.isWordChar := by
  unfold keptChars Text.upperCamelCase
  rw [List.filter_flatMap]

/-! ## Names that stay the same -/

section

variable {name : String}

/-- The characters of a word without an underscore all belong to words of texts. -/
theorem isAlphanumeric_of_mem (h : IsWord name) (hplain : '_' ∉ name.toList) :
    ∀ c ∈ name.toList, Text.isAlphanumeric c = true := by
  intro c hc
  refine Go.isAlphanumeric_of_isWordChar (Go.isWordChar_of_mem h hc) ?_
  rintro rfl
  exact hplain hc

/-- All of a name in camel case is kept. -/
theorem IsCamel.keptChars_eq (h : IsCamel name) : keptChars name = name.toList := by
  have halpha := isAlphanumeric_of_mem h.word h.plain
  have hkept : ∀ c ∈ name.toList, Go.isWordChar c = true :=
    fun c hc => Go.isWordChar_of_mem h.word hc
  have hcamel : Text.upperCamelCase name.toList = name.toList := by
    unfold Text.upperCamelCase
    rw [List.flatMap_congr h.capital, List.flatMap_id', Text.flatten_wordsOf,
      List.filter_eq_self.mpr halpha]
  unfold keptChars
  rw [hcamel, List.filter_eq_self.mpr hkept]

/-- A name in camel case is made of itself. -/
theorem IsCamel.exportedName_eq (h : IsCamel name) : exportedName name = name := by
  obtain ⟨c, rest, hname, hc, _⟩ := Go.isWord_iff.mp h.word
  have hkept := h.keptChars_eq
  rw [hname] at hkept
  have hlist := toList_exportedName hkept
  rw [Go.isDigit_of_isLetter hc, if_neg (by simp), ← hname] at hlist
  exact String.toList_inj.mp hlist

/-- Names in camel case make one in camel case if upper case follows lower case. -/
theorem IsCamel.append {field : String} (h : IsCamel name) (hfield : IsCamel field)
    (hlast : ∀ c ∈ name.toList.getLast?, Text.isLowercase c = true)
    (hstarts : Text.StartsUpper field.toList) : IsCamel (name ++ field) := by
  have hchars : ∀ c ∈ field.toList, Go.isWordChar c = true :=
    fun c hc => Go.isWordChar_of_mem hfield.word hc
  refine ⟨?_, ?_, ?_⟩
  · unfold IsWord
    rw [String.toList_append]
    exact Go.isWord_append h.word hchars
  · rw [String.toList_append]
    exact List.not_mem_append h.plain hfield.plain
  · rw [String.toList_append, Text.wordsOf_append (isAlphanumeric_of_mem h.word h.plain)
      (isAlphanumeric_of_mem hfield.word hfield.plain) hlast hstarts]
    exact List.forall_mem_append.mpr ⟨h.capital, hfield.capital⟩

/-- Characters without case stay what they are in made names, apart from underscores. -/
theorem filter_isCaseless_exportedName (s : String) :
    (exportedName s).toList.filter Text.isCaseless =
      (s.toList.filter Text.isAlphanumeric).filter Text.isCaseless := by
  have hkept : (keptChars s).filter Text.isCaseless =
      (s.toList.filter Text.isAlphanumeric).filter Text.isCaseless := by
    have himp : ∀ c, Text.isCaseless c = true → Go.isWordChar c = true := by
      intro c hc
      rcases (Bool.or_eq_true _ _).mp hc with hunderscore | hdigit
      · rw [beq_iff_eq.mp hunderscore]
        decide
      · exact Go.isWordChar_of_isDigit hdigit
    rw [← Text.filter_isCaseless_upperCamelCase]
    exact filter_filter_of_imp himp _
  rw [← hkept]
  cases hcase : keptChars s with
  | nil => rw [exportedName_of_nil hcase]; rfl
  | cons d rest =>
    rw [toList_exportedName hcase]
    split
    · exact List.filter_cons_of_neg (by decide)
    · rfl

/-- Underscores are never kept. -/
theorem underscore_not_mem_exportedName (s : String) : '_' ∉ (exportedName s).toList := by
  intro hmem
  have hcaseless : '_' ∈ (exportedName s).toList.filter Text.isCaseless :=
    List.mem_filter.mpr ⟨hmem, by decide⟩
  rw [filter_isCaseless_exportedName] at hcaseless
  have halpha : Text.isAlphanumeric '_' = true :=
    (List.mem_filter.mp (List.mem_filter.mp hcaseless).1).2
  exact absurd halpha (by decide)

/-- If a name is made of itself, nothing has been put in front: a name with the letter in front has
it already, and it is kept. -/
theorem keptChars_of_exportedName_eq (hne : name ≠ "") (h : exportedName name = name)
    {first : List Char} {others : List (List Char)}
    (hwords : Text.wordsOf name.toList = first :: others) (hfirst : first ≠ [])
    (heq : first ++ others.flatten = name.toList) : keptChars name = name.toList := by
  cases hcase : keptChars name with
  | nil => exact absurd ((exportedName_of_nil hcase).symm.trans h).symm hne
  | cons d kept =>
    have hlist := toList_exportedName hcase
    rw [h] at hlist
    split at hlist
    · next hdigit =>
      obtain ⟨x, firstRest, rfl⟩ := List.exists_cons_of_ne_nil hfirst
      have hx : x = 'X' := by
        rw [hlist, List.cons_append, List.cons.injEq] at heq
        exact heq.1
      rw [keptChars_eq, hwords, List.flatMap_cons, Text.capitalize, hx,
        Text.toUpper_eq_self (by decide), List.singleton_append,
        List.filter_cons_of_pos (by decide), List.cons_append, List.cons.injEq] at hcase
      rw [← hcase.1] at hdigit
      exact absurd hdigit (by decide)
    · exact hlist.symm

/-- If all of a name is kept, its words are all capitalized: the words after the first start in
upper case, so each keeps its length and its place. -/
theorem capitalize_eq_of_keptChars (hchars : ∀ x ∈ name.toList, Go.isWordChar x = true)
    (hkept : keptChars name = name.toList) {first : List Char} {others : List (List Char)}
    (hwords : Text.wordsOf name.toList = first :: others)
    (heq : first ++ others.flatten = name.toList) (hstarts : ∀ o ∈ others, Text.StartsUpper o) :
    ∀ w ∈ Text.wordsOf name.toList, Text.capitalize w = w := by
  rw [← heq] at hchars
  have hlength : ∀ w ∈ others,
      ((Text.capitalize w).filter Go.isWordChar).length = w.length := by
    intro w hw
    refine length_filter_capitalize (fun x hx => hchars x ?_) (hstarts w hw)
    exact List.mem_append_right _ (List.mem_flatten_of_mem hw hx)
  rw [keptChars_eq, hwords, List.flatMap_cons, ← heq] at hkept
  obtain ⟨hfirst, hothers⟩ := List.append_inj' hkept (by
    rw [List.length_flatMap, List.length_flatten, List.map_congr_left hlength])
  rw [hwords]
  refine List.forall_mem_cons.mpr ⟨?_, fun w hw => ?_⟩
  · exact capitalize_eq_of_filter (fun x hx => hchars x (List.mem_append_left _ hx)) hfirst
  · refine capitalize_eq_of_filter (fun x hx => hchars x ?_)
      (eq_of_flatMap_eq hlength hothers w hw)
    exact List.mem_append_right _ (List.mem_flatten_of_mem hw hx)

/-- Only names in camel case are made of themselves. -/
theorem isCamel_of_exportedName_eq (hword : IsWord name) (h : exportedName name = name) :
    IsCamel name := by
  have hplain : '_' ∉ name.toList := h ▸ underscore_not_mem_exportedName name
  have hne : name ≠ "" := by
    rintro rfl
    cases hword
  obtain ⟨first, others, hwords, hfirst, heq, hstarts⟩ :=
    Text.wordsOf_eq (isAlphanumeric_of_mem hword hplain) (mt String.toList_eq_nil_iff.mp hne)
  have hkept := keptChars_of_exportedName_eq hne h hwords hfirst heq
  have hchars : ∀ x ∈ name.toList, Go.isWordChar x = true :=
    fun x hx => Go.isWordChar_of_mem hword hx
  exact ⟨hword, hplain, capitalize_eq_of_keptChars hchars hkept hwords heq hstarts⟩

/-- A name is converted to itself exactly if it is in camel case. -/
theorem forType_none_eq_iff : forType none name = name ↔ IsCamel name := by
  constructor
  · intro h
    have hword : IsWord name := h ▸ isWord_forType none name
    refine isCamel_of_exportedName_eq hword ?_
    rw [forType_eq] at h
    split at h
    · exact h
    · next hempty =>
      rw [← h] at hempty
      exact absurd (by decide) hempty
  · intro h
    have hne : exportedName name ≠ "" := by
      rw [h.exportedName_eq]
      rintro rfl
      cases h.word
    rw [forType_eq]
    exact (if_pos hne).trans h.exportedName_eq

end

/-! ## Numbers of names -/

/-- The decimal digits of a name. -/
def digits (name : String) : List Char := name.toList.filter Char.isDigit

/-- A name with a number has the digits of the number besides. -/
theorem digits_append_number (base : String) (n : Nat) :
    digits (base ++ toString n) = digits base ++ (toString n).toList := by
  unfold digits
  rw [String.toList_append, List.filter_append, List.append_cancel_left_eq, List.filter_eq_self,
    Nat.toString_eq_repr, Nat.toList_repr]
  exact fun c hc => Nat.isDigit_of_mem_toDigits (by decide) (by decide) hc

theorem toList_number_ne_nil (n : Nat) : (toString n).toList ≠ [] := by
  intro h
  exact Nat.repr_ne_empty (String.toList_inj.mp h)

/-- A made name has the digits of its text. -/
theorem digits_exportedName (s : String) : digits (exportedName s) = digits s := by
  have hcaseless : ∀ t : List Char,
      (t.filter Text.isCaseless).filter Char.isDigit = t.filter Char.isDigit :=
    filter_filter_of_imp fun c hc => by rw [Text.isCaseless, hc, Bool.or_true]
  have halpha : ∀ c : Char, c.isDigit = true → Text.isAlphanumeric c = true := by
    intro c hc
    refine Go.isAlphanumeric_of_isWordChar (Go.isWordChar_of_isDigit hc) ?_
    rintro rfl
    cases hc
  unfold digits
  rw [← hcaseless, filter_isCaseless_exportedName, hcaseless, filter_filter_of_imp halpha]

theorem digits_forType_none (name : String) : digits (forType none name) = digits name := by
  rw [forType_eq]
  split
  · exact digits_exportedName name
  · next hempty =>
    have hdigits := digits_exportedName name
    unfold nameSource at hempty
    rw [show exportedName name = "" from not_not.mp hempty] at hdigits
    rw [← hdigits]
    decide

/-- The name is the plain one if that is free, else it has the smallest number with which it is
free. -/
def IsFreed (taken : List String) (base name : String) : Prop :=
  (base ∉ taken ∧ name = base) ∨
    (base ∈ taken ∧ ∃ n ≥ 1, name = base ++ toString n ∧ base ++ toString n ∉ taken ∧
      ∀ i, 1 ≤ i → i < n → base ++ toString i ∈ taken)

theorem isFreed_freeName (taken : List String) (base : String) :
    IsFreed taken base (freeName taken base) := freeName_spec taken base

/-- No name is the free one for two names with the same digits. -/
theorem IsFreed.eq {taken : List String} {x y name : String} (hx : IsFreed taken x name)
    (hy : IsFreed taken y name) (hdigits : digits x = digits y) : x = y := by
  -- a number adds digits, so both names have got one or none
  have hnumber : ∀ {a b : String} (n : Nat), digits a = digits b → a ≠ b ++ toString n := by
    rintro a b n hab rfl
    rw [digits_append_number] at hab
    exact toList_number_ne_nil n (List.append_right_eq_self.mp hab)
  rcases hx with ⟨_, rfl⟩ | ⟨_, m, _, rfl, _⟩
  · rcases hy with ⟨_, hy⟩ | ⟨_, n, _, hy, _⟩
    · exact hy
    · exact absurd hy (hnumber n hdigits)
  · rcases hy with ⟨_, hy⟩ | ⟨_, n, _, hy, _⟩
    · exact absurd hy.symm (hnumber m hdigits.symm)
    · have hsuffix : (toString m).toList = (toString n).toList := by
        have hall := congrArg digits hy
        rw [digits_append_number, digits_append_number, hdigits] at hall
        exact List.append_cancel_left hall
      rw [String.toList_inj.mp hsuffix] at hy
      exact (String.append_left_inj _).mp hy

/-- The free name for a converted name is the one for the name itself exactly if the name is in
camel case. -/
theorem isFreed_iff_isCamel {taken : List String} {base name : String}
    (h : IsFreed taken (forType none base) name) : IsFreed taken base name ↔ IsCamel base := by
  rw [← forType_none_eq_iff]
  constructor
  · intro hbase
    exact h.eq hbase (digits_forType_none base)
  · intro hsame
    rwa [hsame] at h

end SchemaToGo.Naming
