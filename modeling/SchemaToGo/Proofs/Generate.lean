import SchemaToGo.Generate
import SchemaToGo.Proofs.Declarations
import SchemaToGo.Proofs.Go.Reading
set_option autoImplicit false

/-!
# Generating

The text that is written for the declarations of documents is accepted by the formatter, unless a
type or a field is named by a keyword: `generate_malformed_iff`.  Names are made by upper camel
case and start with a capital letter then, but a character that is dropped from a name may have been
the one that was capitalised.

The text of declarations that documents give is malformed in no case by SPEC_FULL.md section 7,
where it would be a failure of the program.
-/

namespace SchemaToGo

open Go (TypeTerm isKeyword isPackageName plainText)

/-! ## Types as terms -/

/-- The type as it is written. -/
def GoType.term : GoType → TypeTerm
  | text => .name "string".toList
  | integer => .name "int".toList
  | float => .name "float64".toList
  | boolean => .name "bool".toList
  | anything => .anything
  | struct name => .pointer (.name name.toList)
  | named name => .name name.toList
  | list element => .list element.term
  | dictionary value => .dictionary value.term

theorem GoType.text_term (t : GoType) : t.term.text = t.toText.toList := by
  induction t with
  | struct name =>
    show '*' :: (name.toList ++ []) = ("*" ++ name).toList
    simp
  | named name => exact List.append_nil _
  | list element ih =>
    show '[' :: ']' :: element.term.text = ("[]" ++ element.toText).toList
    simp [ih]
  | dictionary value ih =>
    show "map[string]".toList ++ value.term.text = ("map[string]" ++ value.toText).toList
    simp [ih]
  | _ => rfl

/-- The name in a type is that of a known type, or no keyword. -/
theorem GoType.Refers.leaf {known : List Heading} {t : GoType} (h : t.Refers known) :
    ∀ word ∈ t.term.leaf?, (∃ x ∈ known, word = x.name.toList) ∨
      (Go.isWord word = true ∧ isKeyword word = false) := by
  induction t with
  | struct name =>
    intro word hword
    cases hword
    exact .inl ⟨_, h, rfl⟩
  | named name =>
    intro word hword
    cases hword
    exact .inl ⟨_, h, rfl⟩
  | list element ih => exact ih h
  | dictionary value ih => exact ih h
  | anything => exact nofun
  | _ =>
    intro word hword
    cases hword
    exact .inr (by decide)

/-! ## Keywords among the names -/

/-- A declared type or a field is named by a keyword. -/
def Declarations.HasKeyword (d : Declarations) : Prop :=
  (∃ a ∈ d.aliases.values, isKeyword a.name.toList = true) ∨
    ∃ s ∈ d.structs.values, isKeyword s.name.toList = true ∨
      ∃ f ∈ s.fields.values, isKeyword f.name.toList = true

/-- What is declared has a name in its declaration. -/
theorem Declarations.Tidy.exists_of_mem_headings {d : Declarations} (h : d.Tidy) {x : Heading}
    (hx : x ∈ d.headings) :
    (∃ a ∈ d.aliases.values, a.name = x.name) ∨ ∃ s ∈ d.structs.values, s.name = x.name := by
  rw [mem_headings] at hx
  split at hx
  · obtain ⟨e, he, hname⟩ := List.mem_map.mp hx
    exact .inr ⟨e.2, List.mem_map_of_mem he, (h.structs e he).trans hname⟩
  · obtain ⟨e, he, hname⟩ := List.mem_map.mp hx
    exact .inl ⟨e.2, List.mem_map_of_mem he, (h.aliases e he).trans hname⟩

theorem Declarations.made_of_mem_all {made : List Declaration} {e : Declaration}
    (h : e ∈ (ofInserts made).all) : e ∈ made := by
  rcases List.mem_append.mp h with h | h
  · obtain ⟨a, ha, rfl⟩ := List.mem_map.mp h
    exact alias_mem_of_mem_values ha
  · obtain ⟨s, hs, rfl⟩ := List.mem_map.mp h
    exact struct_mem_of_mem_values hs

/-- Every text of a type that refers to known types only has a term. -/
theorem exists_terms (known : List Heading) : ∃ term : String → TypeTerm, ∀ text,
    Typed known text → ∃ type : GoType, text = type.toText ∧ type.Refers known ∧
      term text = type.term := by
  have hterm : ∀ text : String, ∃ t : TypeTerm, Typed known text →
      ∃ type : GoType, text = type.toText ∧ type.Refers known ∧ t = type.term := by
    intro text
    by_cases htyped : Typed known text
    · obtain ⟨type, htext, hrefers⟩ := htyped
      exact ⟨type.term, fun _ => ⟨type, htext, hrefers, rfl⟩⟩
    · exact ⟨.anything, fun hne => absurd hne htyped⟩
  choose term hterm using hterm
  exact ⟨term, hterm⟩

namespace Workshop

/-- Everything declared in a sound workshop is legible, and the keywords in it are names of declared
types and fields. -/
theorem Sound.legible {w : Workshop} (h : w.Sound []) : ∃ term : String → TypeTerm,
    (∀ e ∈ w.declarations.all, Go.DeclarationLegible term e) ∧
    ((∃ e ∈ w.declarations.all, Go.DeclarationHasKeyword term e) ↔
      w.declarations.HasKeyword) := by
  obtain ⟨term, hterm⟩ := exists_terms w.declarations.headings
  have hwrites : ∀ text, Typed w.declarations.headings text → Go.Writes term text := by
    intro text htyped
    obtain ⟨type, rfl, hrefers, htype⟩ := hterm text htyped
    refine ⟨by rw [htype]; exact type.text_term, fun word hleaf => ?_⟩
    rw [htype] at hleaf
    rcases hrefers.leaf word hleaf with ⟨x, hx, rfl⟩ | ⟨hword', _⟩
    · exact h.isWord_of_mem_headings hx
    · exact hword'
  have hkeyword : ∀ text, Typed w.declarations.headings text → (term text).HasKeyword →
      w.declarations.HasKeyword := by
    rintro text htyped ⟨word, hleaf, hkeyword⟩
    obtain ⟨type, rfl, hrefers, htype⟩ := hterm text htyped
    rw [htype] at hleaf
    rcases hrefers.leaf word hleaf with ⟨x, hx, rfl⟩ | ⟨_, hnone⟩
    · rcases h.tidy.exists_of_mem_headings hx with ⟨a, ha, hname⟩ | ⟨s, hs, hname⟩
      · exact .inl ⟨a, ha, by rw [hname]; exact hkeyword⟩
      · exact .inr ⟨s, hs, .inl (by rw [hname]; exact hkeyword)⟩
    · rw [hnone] at hkeyword
      cases hkeyword
  refine ⟨term, fun e he => ?_, ?_, ?_⟩
  · have hmade := Declarations.made_of_mem_all he
    have hsound := h.declared e hmade
    cases e with
    | struct s =>
      exact ⟨h.isWord_of_made hmade, fun f hf => ⟨hsound.word f hf, hwrites _ (hsound.typed f hf)⟩⟩
    | «alias» a => exact ⟨h.isWord_of_made hmade, hwrites _ hsound⟩
  · rintro ⟨e, he, hfound⟩
    have hsound := h.declared e (Declarations.made_of_mem_all he)
    rcases List.mem_append.mp he with he | he
    · obtain ⟨a, ha, rfl⟩ := List.mem_map.mp he
      rcases hfound with hfound | hfound
      · exact .inl ⟨a, ha, hfound⟩
      · exact hkeyword _ hsound hfound
    · obtain ⟨s, hs, rfl⟩ := List.mem_map.mp he
      rcases hfound with hfound | ⟨f, hf, hfound | hfound⟩
      · exact .inr ⟨s, hs, .inl hfound⟩
      · exact .inr ⟨s, hs, .inr ⟨f, hf, hfound⟩⟩
      · exact hkeyword _ (hsound.typed f hf) hfound
  · rintro (⟨a, ha, hfound⟩ | ⟨s, hs, hfound⟩)
    · exact ⟨.alias a, List.mem_append_left _ (List.mem_map_of_mem ha), .inl hfound⟩
    · refine ⟨.struct s, List.mem_append_right _ (List.mem_map_of_mem hs), ?_⟩
      exact hfound.imp_right fun ⟨f, hf, hkeyword'⟩ => ⟨f, hf, .inl hkeyword'⟩

end Workshop

/-! ## The formatter accepts what is written -/

/-- The text of the declarations of documents is accepted by the formatter exactly if no declared
type and no field is named by a keyword. -/
theorem format_plainText_iff {documents : List Document} {d : Declarations}
    (h : Declarations.ofDocuments documents = .ok d) {package : List Char}
    (hpackage : isPackageName package = true) :
    (∃ t, Go.format (String.ofList (plainText d package)) = .ok t) ↔ ¬ d.HasKeyword := by
  obtain ⟨w, hw, rfl⟩ := exists_ofDocuments h
  obtain ⟨term, hlegible, hkeyword⟩ := (Work.sound_of_ofDocuments hw).legible
  obtain ⟨hread, hrefused⟩ := Go.readFile_plainText hlegible hpackage
  have hformat : Go.format (String.ofList (plainText w.declarations package)) =
      (Go.readFile (plainText w.declarations package)).map
        fun items => String.ofList (Go.fileText items) := by
    unfold Go.format
    rw [String.toList_ofList]
    cases Go.readFile (plainText w.declarations package) <;> rfl
  rw [hformat, ← hkeyword]
  constructor
  · rintro ⟨t, ht⟩ hfound
    obtain ⟨e, he⟩ := hrefused hfound
    rw [he] at ht
    cases ht
  · intro hnone
    rw [hread fun e he hfound => hnone ⟨e, he, hfound⟩]
    exact ⟨_, rfl⟩

/-- What a run comes to before it writes anything: declarations of documents, or an error in a
source or in a document. -/
theorem declarationsOf_cases (sources : List Source) :
    (∃ e, declarationsOf sources = .error (.parse e)) ∨
      ∃ documents, declarationsOf sources =
        (Declarations.ofDocuments documents).mapError .build := by
  unfold declarationsOf
  cases sources.mapM Source.document with
  | error e => exact .inl ⟨e, rfl⟩
  | ok documents => exact .inr ⟨documents, rfl⟩

/-- The text of declarations is malformed if the formatter refuses it. -/
theorem render_malformed_iff (d : Declarations) (package : String) :
    (∃ e plain, Go.render d package = .error (.malformed e plain)) ↔
      isPackageName package.toList = true ∧
        ¬ ∃ t, Go.format (String.ofList (plainText d package.toList)) = .ok t := by
  unfold Go.render
  split
  · next hpackage =>
    dsimp only
    cases Go.format (String.ofList (plainText d package.toList)) with
    | ok t => simp [hpackage]
    | error e => simp [hpackage]
  · next hpackage => simp [hpackage]

/-- The text that is written for documents is accepted by the formatter exactly if no declared type
and no field is named by a keyword; if one is, the run ends with malformed text.  The bound on walks
through documents is never reported. -/
theorem generate_malformed_iff (sources : List Source) (settings : Settings) :
    (∀ documents d, Declarations.ofDocuments documents = .ok d →
      ∀ package, isPackageName package = true →
        ((∃ t, Go.format (String.ofList (plainText d package)) = .ok t) ↔ ¬ d.HasKeyword)) ∧
    generate sources settings ≠ .error (.build .exhausted) ∧
    ((∃ e plain, generate sources settings = .error (.render (.malformed e plain))) ↔
      ∃ d, declarationsOf sources = .ok d ∧ isPackageName settings.package.toList = true ∧
        d.HasKeyword) := by
  refine ⟨fun documents d hd package hpackage => format_plainText_iff hd hpackage, ?_⟩
  unfold generate
  rcases declarationsOf_cases sources with ⟨e, he⟩ | ⟨documents, hdocuments⟩
  · rw [he]
    exact ⟨nofun, ⟨nofun, nofun⟩⟩
  · rw [hdocuments]
    cases hd : Declarations.ofDocuments documents with
    | error e =>
      refine ⟨fun hexhausted => ?_, ⟨nofun, nofun⟩⟩
      cases hexhausted
      exact Work.ofDocuments_ne_exhausted documents hd
    | ok d =>
      have hrender := render_malformed_iff d settings.package
      constructor
      · show (Go.render d settings.package).mapError GenerateError.render ≠ _
        cases Go.render d settings.package <;> exact nofun
      · have hlift : (∃ e plain, (Go.render d settings.package).mapError GenerateError.render =
            .error (.render (.malformed e plain))) ↔
            ∃ e plain, Go.render d settings.package = .error (.malformed e plain) := by
          cases Go.render d settings.package <;> simp [Except.mapError]
        refine Iff.trans hlift (hrender.trans ⟨?_, ?_⟩)
        · rintro ⟨hpackage, hrefused⟩
          rw [format_plainText_iff hd hpackage, not_not] at hrefused
          exact ⟨d, rfl, hpackage, hrefused⟩
        · rintro ⟨d', hd', hpackage, hkeyword⟩
          cases hd'
          rw [format_plainText_iff hd hpackage]
          exact ⟨hpackage, fun hnone => hnone hkeyword⟩

/-- A property whose name starts with a superscript.  That counts as the first letter of a word but
not as a character of identifiers, so what follows it is left in lower case. -/
def Source.superscript : Source where
  name := "schema.json"
  text := "\x7b\"properties\": \x7b\"²type\": \x7b\"type\": \"string\"\x7d\x7d\x7d"

theorem generate_superscript :
    ∃ e plain, generate [.superscript] {} = .error (.render (.malformed e plain)) ∧
      e.problem = .keywordAsName .field "type".toList := by
  have hrun : (match generate [.superscript] {} with
      | .error (.render (.malformed e _)) => e.problem == .keywordAsName .field "type".toList
      | _ => false) = true := by decide +kernel
  split at hrun
  · next e plain heq => exact ⟨e, plain, heq, beq_iff_eq.mp hrun⟩
  · cases hrun

end SchemaToGo
