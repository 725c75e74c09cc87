import SchemaToGo.Proofs.Go.Casing
import SchemaToGo.Proofs.Naming
set_option autoImplicit false

/-!
# Exported names

A name is exported if it starts with an upper-case letter.  Names are made by capitalizing the words
of a text, but the characters that identifiers do not admit are dropped afterwards, and scripts
without case have no capitals.  So a made name fails to be exported exactly if its text starts
small: `exported_iff`.

Normative source: SPEC_FULL.md section 10, on names.
-/

namespace SchemaToGo.Naming

open Text (CodeSet)

/-! ## Names that are exported -/

/-- The name is an identifier that starts with an upper-case letter. -/
def IsExported (name : String) : Prop :=
  Go.isIdentifier name.toList = true ∧
    ∃ c rest, name.toList = c :: rest ∧ CodeSet.upperLetters.contains c = true

/-- The names that types have without being declared. -/
def predeclaredTypes : List String :=
  ["any", "bool", "byte", "comparable", "complex64", "complex128", "error", "float32", "float64",
    "int", "int8", "int16", "int32", "int64", "rune", "string", "uint", "uint8", "uint16", "uint32",
    "uint64", "uintptr"]

/-- Keywords do not start with upper-case letters. -/
theorem isKeyword_of_upperLetter {c : Char} (h : CodeSet.upperLetters.contains c = true)
    (rest : List Char) : Go.isKeyword (c :: rest) = false := by
  have hsmall : ∀ word ∈ Go.keywords, word.head?.any CodeSet.upperLetters.contains = false := by
    decide
  refine eq_false_of_ne_true fun hkeyword => ?_
  have hc := hsmall _ (List.contains_iff_mem.mp hkeyword)
  rw [List.head?_cons, Option.any_some, h] at hc
  cases hc

/-- A word is exported if it starts with an upper-case letter. -/
theorem isExported_iff {name : String} (h : IsWord name) :
    IsExported name ↔ ∃ c rest, name.toList = c :: rest ∧
      CodeSet.upperLetters.contains c = true := by
  refine and_iff_right_of_imp ?_
  rintro ⟨c, rest, hname, hc⟩
  rw [Go.isIdentifier_eq, Bool.and_eq_true, Bool.not_eq_true']
  exact ⟨h, hname ▸ isKeyword_of_upperLetter hc rest⟩

/-- Neither a keyword nor the name of a predeclared type is exported. -/
theorem not_predeclared_of_isExported {name : String} (h : IsExported name) :
    Go.isKeyword name.toList = false ∧ name ∉ predeclaredTypes := by
  have hsmall : ∀ t ∈ predeclaredTypes,
      t.toList.head?.any CodeSet.upperLetters.contains = false := by
    decide
  obtain ⟨hidentifier, c, rest, hname, hc⟩ := h
  refine ⟨(Go.isWord_of_isIdentifier hidentifier).2, fun hmem => ?_⟩
  have hfirst := hsmall name hmem
  rw [hname, List.head?_cons, Option.any_some, hc] at hfirst
  cases hfirst

/-! ## Characters of made names -/

/-- The characters of a text that are kept when it is made into a name. -/
def keptChars (s : String) : List Char := (Text.upperCamelCase s.toList).filter Go.isWordChar

theorem exportedName_of_nil {s : String} (h : keptChars s = []) : exportedName s = "" := by
  unfold keptChars at h
  unfold exportedName
  rw [h]

theorem toList_exportedName {s : String} {d : Char} {rest : List Char}
    (h : keptChars s = d :: rest) :
    (exportedName s).toList = if Go.isDigit d then 'X' :: d :: rest else d :: rest := by
  unfold keptChars at h
  unfold exportedName
  rw [h]
  exact String.toList_ofList

theorem exportedName_eq_empty_iff {s : String} : exportedName s = "" ↔ keptChars s = [] := by
  refine ⟨fun h => ?_, exportedName_of_nil⟩
  cases hkept : keptChars s with
  | nil => rfl
  | cons d rest =>
    have hlist := toList_exportedName hkept
    rw [h, String.toList_empty] at hlist
    split at hlist
    · cases hlist
    · cases hlist

/-- A letter that names can start with and that is no upper-case letter. -/
def IsSmall (c : Char) : Prop :=
  Go.isLetter c = true ∧ CodeSet.upperLetters.contains c = false

/-- A made name is exported unless the first character that is kept is small. -/
theorem isExported_exportedName_iff {s : String} (hs : exportedName s ≠ "") :
    IsExported (exportedName s) ↔ ¬ ∃ d rest, keptChars s = d :: rest ∧ IsSmall d := by
  rw [isExported_iff (isWord_exportedName hs)]
  obtain ⟨d, rest, hkept⟩ := List.exists_cons_of_ne_nil (mt exportedName_eq_empty_iff.mpr hs)
  have hword : Go.isWordChar d = true := by
    have hd : d ∈ keptChars s := hkept ▸ List.mem_cons_self
    exact (List.mem_filter.mp hd).2
  rw [toList_exportedName hkept]
  constructor
  · rintro ⟨c, rest', hlist, hc⟩ ⟨d', rest'', hkept', hletter, hsmall⟩
    rw [hkept] at hkept'
    cases hkept'
    rw [if_neg (by simp [Go.isDigit_of_isLetter hletter])] at hlist
    cases hlist
    rw [hc] at hsmall
    cases hsmall
  · intro hnone
    split
    · exact ⟨'X', d :: rest, rfl, by decide⟩
    · next hdigit =>
      have hletter : Go.isLetter d = true := ((Bool.or_eq_true _ _).mp hword).resolve_right hdigit
      refine ⟨d, rest, rfl, eq_true_of_ne_false fun hsmall => ?_⟩
      exact hnone ⟨d, rest, hkept, hletter, hsmall⟩

/-! ## Texts that start small -/

/-- Nothing of the text is kept in names. -/
def Vanishes (t : List Char) : Prop := t.filter Go.isWordChar = []

/-- A small character that has no upper-case form of its own.  The form of `ŉ` starts with an
apostrophe, which is a small letter of names. -/
def Uncapital (c : Char) : Prop := IsSmall c ∧ (Text.toUpper c = [c] ∨ c = 'ŉ')

/-- The first character that is kept of the words is small. -/
inductive StartsSmall : List (List Char) → Prop
  /-- nothing is kept of the first word -/
  | later {word : List Char} {others : List (List Char)} :
      Vanishes (Text.capitalize word) → StartsSmall others → StartsSmall (word :: others)
  /-- the first word starts with a character without a capital -/
  | first {c : Char} {rest : List Char} {others : List (List Char)} :
      Uncapital c → StartsSmall ((c :: rest) :: others)
  /-- the capital is dropped, and what is kept next of the first word is small -/
  | dropped {c d : Char} {rest kept : List Char} {others : List (List Char)} :
      Vanishes (Text.toUpper c) → (Text.lowerTail rest).filter Go.isWordChar = d :: kept →
      IsSmall d → StartsSmall ((c :: rest) :: others)

/-- What is kept of the upper-case form of a character without a capital starts small. -/
theorem exists_small_of_uncapital {c : Char} (h : Uncapital c) :
    ∃ d rest, (Text.toUpper c).filter Go.isWordChar = d :: rest ∧ IsSmall d := by
  obtain ⟨hsmall, heq | rfl⟩ := h
  · refine ⟨c, [], ?_, hsmall⟩
    rw [heq, List.filter_cons_of_pos (Go.isWordChar_of_isLetter hsmall.1), List.filter_nil]
  · have happ : (Text.toUpper 'ŉ').filter Go.isWordChar = ['ʼ', 'N'] := by decide
    have hsmall' : IsSmall 'ʼ' := ⟨by decide, by decide⟩
    exact ⟨'ʼ', ['N'], happ, hsmall'⟩

/-- Only characters without a capital have upper-case forms of which a small character is kept
first. -/
theorem uncapital_of_small {c d : Char} {rest : List Char}
    (h : (Text.toUpper c).filter Go.isWordChar = d :: rest) (hd : IsSmall d) : Uncapital c := by
  rcases Go.upperLetter_of_filter_toUpper h with heq | rfl | hupper
  · have hmem : d ∈ [c].filter Go.isWordChar := by
      rw [← heq, h]
      exact List.mem_cons_self
    have hdc : d = c := List.mem_singleton.mp (List.mem_filter.mp hmem).1
    exact ⟨hdc ▸ hd, .inl heq⟩
  · exact ⟨⟨by decide, by decide⟩, .inr rfl⟩
  · rw [hd.2] at hupper
    cases hupper

/-- Words start small if and only if the first character that is kept of them is small. -/
theorem startsSmall_iff (words : List (List Char)) :
    StartsSmall words ↔
      ∃ d rest, (words.flatMap Text.capitalize).filter Go.isWordChar = d :: rest ∧ IsSmall d := by
  constructor
  · intro h
    induction h with
    | later hword _ ih =>
      rw [List.flatMap_cons, List.filter_append, hword, List.nil_append]
      exact ih
    | @first c rest others hc =>
      obtain ⟨d, kept, hkept, hd⟩ := exists_small_of_uncapital hc
      rw [List.flatMap_cons, Text.capitalize, List.filter_append, List.filter_append, hkept]
      exact ⟨d, _, rfl, hd⟩
    | @dropped c d rest kept others hc hrest hd =>
      rw [List.flatMap_cons, Text.capitalize, List.filter_append, List.filter_append, hc, hrest]
      exact ⟨d, _, rfl, hd⟩
  · induction words with
    | nil =>
      rintro ⟨d, rest, hnil, _⟩
      cases hnil
    | cons word others ih =>
      rintro ⟨d, kept, hkept, hd⟩
      rw [List.flatMap_cons, List.filter_append] at hkept
      rcases List.append_eq_cons_iff.mp hkept with ⟨hword, hothers⟩ | ⟨kept', hword, _⟩
      · exact .later hword (ih ⟨d, kept, hothers, hd⟩)
      · cases word with
        | nil => cases hword
        | cons c rest =>
          rw [Text.capitalize, List.filter_append] at hword
          rcases List.append_eq_cons_iff.mp hword with ⟨hc, hrest⟩ | ⟨kept'', hc, _⟩
          · exact .dropped hc hrest hd
          · exact .first (uncapital_of_small hc hd)

/-! ## Names that are made -/

theorem not_startsSmall_of_empty {s : String} (h : exportedName s = "") :
    ¬ StartsSmall (Text.wordsOf s.toList) := by
  rw [startsSmall_iff]
  rintro ⟨d, rest, hkept, _⟩
  have hnil := exportedName_eq_empty_iff.mp h
  unfold keptChars Text.upperCamelCase at hnil
  rw [hkept] at hnil
  cases hnil

theorem isExported_iff_not_startsSmall {s : String} (h : exportedName s ≠ "") :
    IsExported (exportedName s) ↔ ¬ StartsSmall (Text.wordsOf s.toList) := by
  rw [isExported_exportedName_iff h, startsSmall_iff]
  exact Iff.rfl

/-- The text that a type is named after. -/
def nameSource (title : Option String) (fallback : String) : String :=
  (title.filter fun t => exportedName t ≠ "").getD fallback

/-- A type is named after its text, or as a root is. -/
theorem forType_eq (title : Option String) (fallback : String) :
    forType title fallback =
      if exportedName (nameSource title fallback) ≠ "" then
        exportedName (nameSource title fallback)
      else rootName := by
  unfold forType nameSource
  cases title with
  | none => simp
  | some t =>
    by_cases ht : exportedName t = ""
    · simp [Option.filter, ht]
    · simp [Option.filter, ht]

/-- Names are exported exactly if the texts they are made of do not start small.  Exported names are
neither keywords nor names of predeclared types. -/
theorem exported_iff (s key : String) (title : Option String) (fallback name : String) :
    (exportedName s = "" ∨ IsExported (exportedName s) ↔
      ¬ StartsSmall (Text.wordsOf s.toList)) ∧
    (IsExported (forField key) ↔ ¬ StartsSmall (Text.wordsOf key.toList)) ∧
    (IsExported (forType title fallback) ↔
      ¬ StartsSmall (Text.wordsOf (nameSource title fallback).toList)) ∧
    ¬ (IsExported name ∧ (Go.isKeyword name.toList = true ∨ name ∈ predeclaredTypes)) := by
  -- a fixed name stands in for the empty one, and it is exported
  have hdefault : ∀ s name, IsExported name →
      (IsExported (if exportedName s ≠ "" then exportedName s else name) ↔
        ¬ StartsSmall (Text.wordsOf s.toList)) := by
    intro s name hname
    split
    · next hs => exact isExported_iff_not_startsSmall hs
    · next hs => exact iff_of_true hname (not_startsSmall_of_empty (not_not.mp hs))
  have hfield : IsExported "Field" := ⟨by decide, 'F', _, rfl, by decide⟩
  have hroot : IsExported rootName := ⟨by decide, 'R', _, rfl, by decide⟩
  refine ⟨?_, hdefault key _ hfield, ?_, ?_⟩
  · by_cases hs : exportedName s = ""
    · exact iff_of_true (.inl hs) (not_startsSmall_of_empty hs)
    · rw [or_iff_right hs]
      exact isExported_iff_not_startsSmall hs
  · rw [forType_eq]
    exact hdefault _ _ hroot
  · rintro ⟨hexported, hkeyword | htype⟩
    · rw [(not_predeclared_of_isExported hexported).1] at hkeyword
      cases hkeyword
    · exact (not_predeclared_of_isExported hexported).2 htype

/-- A capital is dropped when it is no letter, and some scripts have no capitals. -/
theorem exportedName_small :
    exportedName "²name" = "name" ∧ exportedName "日本" = "日本" ∧
      ¬ (exportedName "²name" = "" ∨ IsExported (exportedName "²name")) ∧
      ¬ (exportedName "日本" = "" ∨ IsExported (exportedName "日本")) := by
  have hsuperscript : exportedName "²name" = "name" := by decide
  have hscript : exportedName "日本" = "日本" := by decide +kernel
  have hsmall : ∀ name : String, ∀ c ∈ name.toList.head?,
      CodeSet.upperLetters.contains c = false → ¬ IsExported name := by
    rintro name c hfirst hc ⟨_, d, rest, hname, hd⟩
    rw [hname] at hfirst
    cases hfirst
    rw [hc] at hd
    cases hd
  refine ⟨hsuperscript, hscript, ?_, ?_⟩
  · rw [hsuperscript]
    exact not_or.mpr ⟨by decide, hsmall _ 'n' rfl (by decide)⟩
  · rw [hscript]
    exact not_or.mpr ⟨by decide, hsmall _ '日' rfl (by decide)⟩

end SchemaToGo.Naming
