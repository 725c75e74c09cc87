import SchemaToGo.Proofs.Go.Format
import SchemaToGo.Proofs.Go.Reading
import SchemaToGo.Proofs.Text.Utf8
set_option autoImplicit false

/-!
# Rendered declarations are read again

Declarations whose names are identifiers and whose types are those of terms are rendered, and the
text says these declarations and nothing else, whatever the descriptions, the JSON names and the
keys of the dictionaries are.

Normative source: SPEC_FULL.md section 4.3, steps 1 to 5.
-/

namespace SchemaToGo.Go

section

variable (term : String → TypeTerm)

/-- The text is that of a term, of which the name is an identifier. -/
def WritesIdentifier (text : String) : Prop :=
  (term text).text = text.toList ∧ ∀ word ∈ (term text).leaf?, isIdentifier word = true

/-- The names of a declared type and of its fields are identifiers, and its types are those of
terms. -/
def DeclarationProper : Declaration → Prop
  | .alias a => isIdentifier a.name.toList = true ∧ WritesIdentifier term a.type
  | .struct s => isIdentifier s.name.toList = true ∧
      ∀ f ∈ s.fields.values, isIdentifier f.name.toList = true ∧ WritesIdentifier term f.type

/-- A declared type as items of a rendered file: its comments without the blanks at their ends, and
directly below them its declaration. -/
def renderedType (name : String) (description : Option String) (x : TypeExpr) : List Item :=
  commentItems 2 ((commentTexts name.toList description).map Text.trimEnd) ++
    [⟨1, .type name.toList x⟩]

/-- An alias in a rendered file. -/
def renderedAlias (a : Alias) : List Item := renderedType a.name none (term a.type).expr

/-- A struct in a rendered file, with the entries of its fields in their order. -/
def renderedStruct (s : Struct) : List Item :=
  renderedType s.name s.description
    (.struct (s.fields.entries.map fun e => fieldMember term e.2) true)

/-- A rendered file: the marker, the package clause, the entries of the aliases and those of the
structs in their order, a blank line before each of them. -/
def renderedItems (d : Declarations) (package : List Char) : List Item :=
  ⟨0, .comment generatedMarker.toList⟩ :: ⟨2, .package package⟩ ::
    (d.aliases.entries.flatMap (fun e => renderedAlias term e.2) ++
      d.structs.entries.flatMap fun e => renderedStruct term e.2)

end

section

variable {term : String → TypeTerm}

/-! ## Declarations -/

/-- A declared type in a rendered file. -/
def renderedDeclaration (term : String → TypeTerm) (e : Declaration) : List Item :=
  renderedType e.name e.description? (declarationExpr term e)

theorem renderedAlias_eq (a : Alias) : renderedAlias term a = renderedDeclaration term (.alias a) :=
  rfl

theorem renderedStruct_eq (s : Struct) :
    renderedStruct term s = renderedDeclaration term (.struct s) := by
  have hfields : s.fields.entries.map (fun e => fieldMember term e.2) =
      s.fields.values.map (fieldMember term) := by
    unfold Dict.values
    rw [List.map_map]
    rfl
  unfold renderedStruct
  rw [hfields]
  rfl

/-- The entries of a rendered file are all declarations in their order. -/
theorem renderedItems_eq (d : Declarations) (package : List Char) :
    renderedItems term d package =
      ⟨0, .comment generatedMarker.toList⟩ :: ⟨2, .package package⟩ ::
        d.all.flatMap (renderedDeclaration term) := by
  unfold renderedItems Declarations.all Dict.values
  simp only [renderedAlias_eq, renderedStruct_eq, List.flatMap_append, List.map_map,
    List.flatMap_map, Function.comp_apply]

/-! ## Identifiers -/

theorem writes_of_writesIdentifier {text : String} (h : WritesIdentifier term text) :
    Writes term text ∧ ¬ (term text).HasKeyword := by
  refine ⟨⟨h.1, fun word hword => (isWord_of_isIdentifier (h.2 word hword)).1⟩, ?_⟩
  rintro ⟨word, hword, hkeyword⟩
  rw [(isWord_of_isIdentifier (h.2 word hword)).2] at hkeyword
  cases hkeyword

/-- Proper declarations are legible, and no name in them is a keyword. -/
theorem legible_of_declarationProper {e : Declaration} (h : DeclarationProper term e) :
    DeclarationLegible term e ∧ ¬ DeclarationHasKeyword term e := by
  cases e with
  | «alias» a =>
    obtain ⟨hname, htype⟩ := h
    obtain ⟨hword, hkeyword⟩ := isWord_of_isIdentifier hname
    obtain ⟨hwrites, hnone⟩ := writes_of_writesIdentifier htype
    refine ⟨⟨hword, hwrites⟩, ?_⟩
    rintro (hbad | hbad)
    · rw [hkeyword] at hbad
      cases hbad
    · exact hnone hbad
  | struct s =>
    obtain ⟨hname, hfields⟩ := h
    obtain ⟨hword, hkeyword⟩ := isWord_of_isIdentifier hname
    refine ⟨⟨hword, fun f hf => ?_⟩, ?_⟩
    · exact ⟨(isWord_of_isIdentifier (hfields f hf).1).1,
        (writes_of_writesIdentifier (hfields f hf).2).1⟩
    · rintro (hbad | ⟨f, hf, hbad⟩)
      · rw [hkeyword] at hbad
        cases hbad
      · refine (not_fieldHasKeyword_iff term).mpr ⟨?_, ?_⟩ hbad
        · exact (isWord_of_isIdentifier (hfields f hf).1).2
        · exact (writes_of_writesIdentifier (hfields f hf).2).2

/-! ## The canonical file -/

theorem TypeTerm.canonical_expr (t : TypeTerm) : t.expr.canonical = t.expr := by
  induction t with
  | name word => rfl
  | pointer target ih => exact congrArg TypeExpr.pointer ih
  | list element ih => exact congrArg TypeExpr.slice ih
  | dictionary value ih => exact congrArg (TypeExpr.map (.named "string".toList)) ih
  | anything => rfl

theorem canonicalMembers_fields (first : Bool) (fs : List Field) :
    canonicalMembers first (fs.map (fieldMember term)) = fs.map (fieldMember term) := by
  induction fs generalizing first with
  | nil => rfl
  | cons f rest ih =>
    have hnewlines : memberNewlines first 1 = 1 := by cases first <;> rfl
    show Member.field (memberNewlines first 1) _ (term f.type).expr.canonical _ none :: _ = _
    rw [hnewlines, TypeTerm.canonical_expr, ih]
    rfl

theorem canonical_declarationExpr (e : Declaration) :
    (declarationExpr term e).canonical = declarationExpr term e := by
  cases e with
  | «alias» a => exact (term a.type).canonical_expr
  | struct s =>
    exact congrArg (fun ms => TypeExpr.struct ms true)
      (canonicalMembers_fields true s.fields.values)

/-- An item on the line below a comment stays there. -/
theorem itemNewlines_below_comment {before : List Item}
    (hbefore : before.head?.any Item.isComment = true) (decl : Decl) (after : List Item) :
    itemNewlines before ⟨1, decl⟩ after = 1 := by
  unfold itemNewlines
  rw [needsBlankLine_after_comment hbefore]
  simp

/-- Comments below a comment and the type that they document stay where they are. -/
theorem exists_canonicalItems_documented (texts : List (List Char)) (name : List Char)
    (x : TypeExpr) (rest : List Item) {before : List Item}
    (hbefore : before.head?.any Item.isComment = true) :
    ∃ before', canonicalItems before (commentItems 1 texts ++ ⟨1, .type name x⟩ :: rest) =
      commentItems 1 (texts.map Text.trimEnd) ++ ⟨1, .type name x.canonical⟩ ::
        canonicalItems before' rest := by
  induction texts generalizing before with
  | nil =>
    refine ⟨⟨1, .type name x⟩ :: before, ?_⟩
    show (⟨itemNewlines before ⟨1, _⟩ rest, _⟩ : Item) :: _ = _
    rw [itemNewlines_below_comment hbefore]
    rfl
  | cons text more ih =>
    obtain ⟨before', hitems⟩ := @ih (⟨1, .comment text⟩ :: before) rfl
    refine ⟨before', ?_⟩
    show (⟨itemNewlines before ⟨1, _⟩ _, _⟩ : Item) :: canonicalItems _ _ = _
    rw [itemNewlines_below_comment hbefore]
    exact congrArg (_ :: ·) hitems

/-- A declaration is laid out as it is rendered. -/
theorem exists_canonicalItems_declaration (term : String → TypeTerm) (e : Declaration)
    (before rest : List Item) :
    ∃ before', canonicalItems before (declarationItems term e ++ rest) =
      renderedDeclaration term e ++ canonicalItems before' rest := by
  obtain ⟨text, more, htexts⟩ := List.exists_cons_of_ne_nil
    (commentTexts_ne_nil e.name.toList e.description?)
  let first : Item := ⟨2, .comment text⟩
  have hfirst : (first :: before).head?.any Item.isComment = true := rfl
  obtain ⟨before', hitems⟩ := exists_canonicalItems_documented more e.name.toList
    (declarationExpr term e) rest hfirst
  refine ⟨before', ?_⟩
  unfold declarationItems renderedDeclaration renderedType
  rw [htexts, List.append_assoc, List.append_assoc]
  rw [canonical_declarationExpr] at hitems
  exact congrArg (_ :: ·) hitems

theorem canonicalItems_declarations (es : List Declaration) (before : List Item) :
    canonicalItems before (es.flatMap (declarationItems term)) =
      es.flatMap (renderedDeclaration term) := by
  induction es generalizing before with
  | nil => rfl
  | cons e rest ih =>
    rw [List.flatMap_cons, List.flatMap_cons]
    obtain ⟨before', hitems⟩ :=
      exists_canonicalItems_declaration term e before (rest.flatMap (declarationItems term))
    rw [hitems, ih]

theorem canonicalFile_fileItems (d : Declarations) (package : List Char) :
    canonicalFile (fileItems term d package) = renderedItems term d package := by
  have hmarker : Text.trimEnd generatedMarker.toList = generatedMarker.toList := by decide +kernel
  rw [renderedItems_eq]
  show (⟨0, .comment (Text.trimEnd generatedMarker.toList)⟩ : Item) :: ⟨2, .package package⟩ ::
    canonicalItems _ _ = _
  rw [hmarker, canonicalItems_declarations]

end

/-- Declarations whose names are identifiers and whose types are those of terms are rendered, and
the text is read as the entries of the declarations.  These stand in the order of the bytes of their
keys, and so do the entries of the fields of each struct. -/
theorem readFile_render {term : String → TypeTerm} {d : Declarations}
    (h : ∀ e ∈ d.all, DeclarationProper term e) {package : String}
    (hpackage : isPackageName package.toList = true) :
    (∃ t, render d package = .ok t ∧
      readFile t.toList = .ok (renderedItems term d package.toList)) ∧
    (d.aliases.entries.Pairwise fun a b => Utf8.encode a.1 < Utf8.encode b.1) ∧
    (d.structs.entries.Pairwise fun a b => Utf8.encode a.1 < Utf8.encode b.1) ∧
    ∀ e ∈ d.structs.entries,
      e.2.fields.entries.Pairwise fun a b => Utf8.encode a.1 < Utf8.encode b.1 := by
  refine ⟨?_, d.aliases.entries_pairwise_encode, d.structs.entries_pairwise_encode,
    fun e _ => e.2.fields.entries_pairwise_encode⟩
  have hread : readFile (plainText d package.toList) = .ok (fileItems term d package.toList) :=
    (readFile_plainText (fun e he => (legible_of_declarationProper (h e he)).1) hpackage).1
      fun e he => (legible_of_declarationProper (h e he)).2
  have hformat : format (String.ofList (plainText d package.toList)) =
      .ok (String.ofList (fileText (fileItems term d package.toList))) :=
    format_eq_ok_iff.mpr ⟨_, by rw [String.toList_ofList]; exact hread, rfl⟩
  refine ⟨String.ofList (fileText (fileItems term d package.toList)), ?_, ?_⟩
  · unfold render
    rw [if_pos hpackage]
    dsimp only
    rw [hformat]
  · rw [String.toList_ofList, readFile_fileText (properItems_of_readFile hread),
      canonicalFile_fileItems]

/-- A description that looks like Go text and a JSON name with all kinds of quotes. -/
theorem readFile_render_quotes :
    let term : String → TypeTerm := fun text =>
      if text = "*string" then .pointer (.name "string".toList) else .name text.toList
    let field : Field := ⟨"A", "a`\"\n", "*string", false, none⟩
    let struct : Struct := ⟨"T", some "x \r\n*/ type U `", (∅ : Dict Field).insert "" field⟩
    let d : Declarations :=
      ⟨(∅ : Dict Struct).insert "key" struct, (∅ : Dict Alias).insert "" ⟨"B", "T"⟩⟩
    (∀ e ∈ d.all, DeclarationProper term e) ∧ isPackageName "p".toList = true ∧
    (∃ t, render d "p" = .ok t ∧ readFile t.toList = .ok (renderedItems term d "p".toList)) ∧
    (d.aliases.entries.Pairwise fun a b => Utf8.encode a.1 < Utf8.encode b.1) ∧
    (d.structs.entries.Pairwise fun a b => Utf8.encode a.1 < Utf8.encode b.1) ∧
    ∀ e ∈ d.structs.entries,
      e.2.fields.entries.Pairwise fun a b => Utf8.encode a.1 < Utf8.encode b.1 := by
  intro term field struct d
  have hpackage : isPackageName "p".toList = true := by decide
  have hidentifier : ∀ {text : String}, text ≠ "*string" → isIdentifier text.toList = true →
      WritesIdentifier term text := by
    intro text hne htext
    have hterm : term text = .name text.toList := if_neg hne
    unfold WritesIdentifier
    rw [hterm]
    refine ⟨?_, fun word hword => ?_⟩
    · simp [TypeTerm.text, TypeTerm.kinds, Kind.spelling]
    · cases hword
      exact htext
  have hpointer : WritesIdentifier term "*string" := by
    refine ⟨rfl, fun word hword => ?_⟩
    cases hword
    decide
  have hproper : ∀ e ∈ d.all, DeclarationProper term e := by
    intro e he
    have hall : d.all = [.alias ⟨"B", "T"⟩, .struct struct] := rfl
    rw [hall] at he
    simp only [List.mem_cons, List.not_mem_nil, or_false] at he
    rcases he with rfl | rfl
    · exact ⟨by decide, hidentifier (by decide) (by decide)⟩
    · refine ⟨by decide, fun f hf => ?_⟩
      obtain rfl : f = field := List.mem_singleton.mp hf
      exact ⟨by decide, hpointer⟩
  exact ⟨hproper, hpackage, readFile_render hproper hpackage⟩

end SchemaToGo.Go
