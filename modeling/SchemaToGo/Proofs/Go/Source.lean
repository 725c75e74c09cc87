import SchemaToGo.Go.Source
import SchemaToGo.Go.Format
import SchemaToGo.Proofs.Go.File.Items
import SchemaToGo.Proofs.Go.Tag
import SchemaToGo.Proofs.Text.Split
set_option autoImplicit false

/-!
# The text of declarations as a file

Declarations are written line by line, and each line token by token: `plainText_eq`.  So the text is
scanned as these tokens, whatever the names, descriptions and JSON names are, and the parser reads
the declarations again, unless a keyword stands where a name belongs: `readFile_plainText`.
-/

namespace SchemaToGo

/-- All declared types in the order in which they are written. -/
def Declarations.all (d : Declarations) : List Declaration :=
  d.aliases.values.map .alias ++ d.structs.values.map .struct

/-- What a declared type is described by. -/
def Declaration.description? : Declaration → Option String
  | .alias _ => none
  | .struct s => s.description

namespace Go

/-! ## Lines -/

/-- The comments above a type. -/
def commentTexts (name : List Char) : Option String → List (List Char)
  | none => ["// ".toList ++ name]
  | some d =>
    match (Text.splitAll (· = '\n') d.toList).map dropReturns with
    | [] => ["// ".toList ++ name ++ [' ']]
    | first :: others => ("// ".toList ++ name ++ ' ' :: first) :: others.map ("// ".toList ++ ·)

/-- A comment on a line of its own. -/
def commentLine (text : List Char) : List Piece := [.token (.comment text)]

/-- The lines before a type's declaration. -/
def headLines (name : List Char) (description : Option String) : List (List Piece) :=
  [] :: (commentTexts name description).map commentLine

/-- The start of a declaration. -/
def typePieces (name : List Char) : List Piece :=
  [.token (.word "type".toList), .blank ' ', .token (.word name), .blank ' ']

section

variable (term : String → TypeTerm)

/-- The line of a field. -/
def fieldLine (f : Field) : List Piece :=
  [.blank '\t', .token (.word f.name.toList), .blank ' '] ++ (term f.type).kinds.map .token ++
    [.blank ' ', .token (.str (fieldTag f))]

/-- The line that opens a struct's declaration. -/
def openLine (name : List Char) : List Piece :=
  typePieces name ++ [.token (.word "struct".toList), .blank ' ', .token (.punct .openBrace)]

/-- The line that closes a struct's declaration. -/
def closeLine : List Piece := [.token (.punct .closeBrace)]

/-- The lines of a declared type after its comments. -/
def typeLines : Declaration → List (List Piece)
  | .alias a => [typePieces a.name.toList ++ (term a.type).kinds.map .token]
  | .struct s => openLine s.name.toList :: (s.fields.values.map (fieldLine term) ++ [closeLine])

/-- The lines of a declared type. -/
def declarationLines (e : Declaration) : List (List Piece) :=
  headLines e.name.toList e.description? ++ typeLines term e

/-- The lines before all declarations. -/
def prologueLines (package : List Char) : List (List Piece) :=
  [commentLine generatedMarker.toList, [],
    [.token (.word "package".toList), .blank ' ', .token (.word package)]]

/-- The lines of a file. -/
def fileLines (d : Declarations) (package : List Char) : List (List Piece) :=
  prologueLines package ++ d.all.flatMap (declarationLines term)

end

/-! ## Texts of lines -/

/-- The text of lines. -/
def linesText (lines : List (List Piece)) : List Char :=
  lines.flatMap fun ps => lineText ps ++ ['\n']

theorem linesText_append (lines more : List (List Piece)) :
    linesText (lines ++ more) = linesText lines ++ linesText more := List.flatMap_append

theorem lineText_append (ps qs : List Piece) : lineText (ps ++ qs) = lineText ps ++ lineText qs :=
  List.flatMap_append

theorem lineText_tokens (ks : List Kind) :
    lineText (ks.map Piece.token) = ks.flatMap Kind.spelling := by
  unfold lineText
  rw [List.flatMap_map]
  rfl

theorem linesText_comments (texts : List (List Char)) :
    linesText (texts.map commentLine) = texts.flatMap line := by
  unfold linesText
  rw [List.flatMap_map, List.flatMap_def, List.flatMap_def]
  refine congrArg List.flatten (List.map_congr_left fun text _ => ?_)
  show (text ++ []) ++ ['\n'] = line text
  rw [List.append_nil]
  rfl

theorem typeComment_eq (name : List Char) (description : Option String) :
    typeComment name description = (commentTexts name description).flatMap line := by
  unfold typeComment commentTexts
  cases description with
  | none => simp
  | some d =>
    dsimp only
    cases (Text.splitAll (· = '\n') d.toList).map dropReturns with
    | nil => simp
    | cons first others => simp [List.flatMap_map]

theorem linesText_headLines (name : List Char) (description : Option String) :
    linesText (headLines name description) = line [] ++ typeComment name description := by
  rw [typeComment_eq, ← linesText_comments]
  rfl

section

variable {term : String → TypeTerm}

theorem linesText_fieldLine {f : Field} (h : (term f.type).text = f.type.toList) :
    linesText [fieldLine term f] = fieldText f := by
  have htype : lineText ((term f.type).kinds.map .token) = f.type.toList := by
    rw [lineText_tokens]
    exact h
  unfold linesText fieldText fieldLine
  rw [List.flatMap_singleton, lineText_append, lineText_append, htype]
  simp [lineText, Piece.text, Kind.spelling, line]

theorem linesText_alias {a : Alias} (h : (term a.type).text = a.type.toList) :
    linesText (declarationLines term (.alias a)) = aliasText a := by
  have htype : lineText ((term a.type).kinds.map .token) = a.type.toList := by
    rw [lineText_tokens]
    exact h
  unfold declarationLines aliasText typeLines
  rw [linesText_append, linesText_headLines]
  congr 1
  unfold linesText
  rw [List.flatMap_singleton, lineText_append, htype]
  simp [typePieces, lineText, Piece.text, Kind.spelling, line]

theorem linesText_struct {s : Struct}
    (h : ∀ f ∈ s.fields.values, (term f.type).text = f.type.toList) :
    linesText (declarationLines term (.struct s)) = structDeclText s := by
  have hfields : linesText (s.fields.values.map (fieldLine term)) =
      s.fields.values.flatMap fieldText := by
    unfold linesText
    rw [List.flatMap_map, List.flatMap_def, List.flatMap_def]
    refine congrArg List.flatten (List.map_congr_left fun f hf => ?_)
    rw [← linesText_fieldLine (h f hf)]
    unfold linesText
    rw [List.flatMap_singleton]
  have hopen : linesText [openLine s.name.toList] =
      line ("type ".toList ++ s.name.toList ++ " struct \x7b".toList) := by
    simp [linesText, openLine, typePieces, lineText, Piece.text, Kind.spelling, line, Punct.char]
  have hbody : typeLines term (.struct s) =
      [openLine s.name.toList] ++ s.fields.values.map (fieldLine term) ++ [closeLine] := rfl
  unfold declarationLines structDeclText
  rw [hbody, linesText_append, linesText_append, linesText_append, linesText_headLines, hopen,
    hfields, ← List.append_assoc, ← List.append_assoc]
  rfl

end

/-! ## Legible declarations -/

/-- The text is that of a term, of which the name is a word. -/
def Writes (term : String → TypeTerm) (text : String) : Prop :=
  (term text).text = text.toList ∧ (term text).Legible

/-- The names of a declared type and of its fields are words, and its types are those of terms. -/
def DeclarationLegible (term : String → TypeTerm) : Declaration → Prop
  | .alias a => isWord a.name.toList = true ∧ Writes term a.type
  | .struct s => isWord s.name.toList = true ∧
      ∀ f ∈ s.fields.values, isWord f.name.toList = true ∧ Writes term f.type

section

variable {term : String → TypeTerm}

/-- Declarations are written line by line. -/
theorem plainText_eq {d : Declarations} (h : ∀ e ∈ d.all, DeclarationLegible term e)
    (package : List Char) : plainText d package = linesText (fileLines term d package) := by
  have haliases : d.aliases.values.flatMap aliasText =
      linesText ((d.aliases.values.map Declaration.alias).flatMap (declarationLines term)) := by
    unfold linesText
    rw [List.flatMap_assoc, List.flatMap_map, List.flatMap_def, List.flatMap_def]
    refine congrArg List.flatten (List.map_congr_left fun a ha => ?_)
    have hmem : Declaration.alias a ∈ d.all := List.mem_append_left _ (List.mem_map_of_mem ha)
    exact (linesText_alias (h _ hmem).2.1).symm
  have hstructs : d.structs.values.flatMap structDeclText =
      linesText ((d.structs.values.map Declaration.struct).flatMap (declarationLines term)) := by
    unfold linesText
    rw [List.flatMap_assoc, List.flatMap_map, List.flatMap_def, List.flatMap_def]
    refine congrArg List.flatten (List.map_congr_left fun s hs => ?_)
    have hmem : Declaration.struct s ∈ d.all := List.mem_append_right _ (List.mem_map_of_mem hs)
    exact (linesText_struct fun f hf => ((h _ hmem).2 f hf).2.1).symm
  unfold plainText fileLines Declarations.all
  rw [List.flatMap_append, linesText_append, linesText_append, haliases, hstructs,
    List.append_assoc]
  refine congrArg (· ++ _) ?_
  simp [linesText, prologueLines, commentLine, lineText, Piece.text, Kind.spelling, line]

/-! ## Lines are scanned as they are written -/

theorem not_isWordChar_of_separator {c : Char} (hc : c ∈ separators) :
    ∀ x ∈ some c, isWordChar x = false := by
  intro x hx
  cases hx
  exact isWordChar_of_separator hc

theorem lineFits_word {word : List Char} (hword : isWord word = true) {ps : List Piece}
    (hps : LineFits ps) (hnext : ∀ x ∈ (lineText ps ++ ['\n']).head?, isWordChar x = false) :
    LineFits (.token (.word word) :: ps) := ⟨⟨hword, hnext⟩, hps⟩

theorem lineFits_punct (p : Punct) {ps : List Piece} (hps : LineFits ps) :
    LineFits (.token (.punct p) :: ps) := ⟨⟨trivial, trivial⟩, hps⟩

theorem lineFits_blank {ps : List Piece} (hps : LineFits ps) : LineFits (.blank ' ' :: ps) :=
  ⟨rfl, hps⟩

/-- The tokens of a type fit each other, with a blank or nothing after them. -/
theorem lineFits_kinds {t : TypeTerm} (ht : t.Legible) {ps : List Piece} (hps : LineFits ps)
    (hnext : ∀ x ∈ (lineText ps ++ ['\n']).head?, isWordChar x = false) :
    LineFits (t.kinds.map .token ++ ps) := by
  induction t with
  | name word => exact lineFits_word (ht word rfl) hps hnext
  | pointer target ih => exact lineFits_punct _ (ih ht)
  | list element ih => exact lineFits_punct _ (lineFits_punct _ (ih ht))
  | dictionary value ih =>
    refine lineFits_word (by decide) (lineFits_punct _ ?_)
      (not_isWordChar_of_separator (by decide))
    exact lineFits_word (by decide) (lineFits_punct _ (ih ht))
      (not_isWordChar_of_separator (by decide))
  | anything =>
    exact lineFits_word (by decide) (lineFits_punct _ (lineFits_punct _ hps))
      (not_isWordChar_of_separator (by decide))

theorem lineFits_typePieces {name : List Char} (hname : isWord name = true) {ps : List Piece}
    (hps : LineFits ps) : LineFits (typePieces name ++ ps) := by
  refine lineFits_word (by decide) (lineFits_blank ?_) (not_isWordChar_of_separator (by decide))
  exact lineFits_word hname (lineFits_blank hps) (not_isWordChar_of_separator (by decide))

theorem lineFits_fieldLine {f : Field} (hname : isWord f.name.toList = true)
    (htype : (term f.type).Legible) : LineFits (fieldLine term f) := by
  unfold fieldLine
  rw [List.append_assoc]
  refine ⟨rfl, lineFits_word hname (lineFits_blank ?_) (not_isWordChar_of_separator (by decide))⟩
  refine lineFits_kinds htype ?_ (not_isWordChar_of_separator (by decide))
  exact lineFits_blank ⟨⟨spelled_fieldTag f, trivial⟩, trivial⟩

theorem feed_not_mem_of_isWord {name : List Char} (hname : isWord name = true) :
    '\n' ∉ name := by
  intro hmem
  have hword := isWordChar_of_mem hname hmem
  rw [isWordChar_of_separator (c := '\n') (by decide)] at hword
  cases hword

theorem lineFits_commentLine {body : List Char} (hbody : '\n' ∉ body) :
    LineFits (commentLine ("//".toList ++ body)) := by
  refine ⟨⟨⟨body, rfl, hbody⟩, fun x hx => ?_⟩, trivial⟩
  cases hx
  rfl

/-- Comments above a type are scanned line by line. -/
theorem lineFits_headLines {name : List Char} (hname : isWord name = true)
    (description : Option String) : ∀ ps ∈ headLines name description, LineFits ps := by
  have hfeed := feed_not_mem_of_isWord hname
  intro ps hps
  rcases List.mem_cons.mp hps with rfl | hps
  · trivial
  · obtain ⟨text, htext, rfl⟩ := List.mem_map.mp hps
    have hline : ∀ body : List Char, '\n' ∉ body →
        LineFits (commentLine ("// ".toList ++ body)) := by
      intro body hbody
      have hblank : '\n' ∉ ' ' :: body := by simp [hbody]
      exact lineFits_commentLine hblank
    unfold commentTexts at htext
    cases description with
    | none =>
      rw [List.mem_singleton.mp htext]
      exact hline name hfeed
    | some d =>
      have hlines : ∀ t ∈ (Text.splitAll (· = '\n') d.toList).map dropReturns, '\n' ∉ t := by
        intro t ht hmem
        obtain ⟨l, hl, rfl⟩ := List.mem_map.mp ht
        have := Text.not_of_mem_splitAll hl '\n' (List.mem_filter.mp hmem).1
        simp at this
      cases hsplit : (Text.splitAll (· = '\n') d.toList).map dropReturns with
      | nil =>
        simp only [hsplit] at htext
        rw [List.mem_singleton.mp htext, List.append_assoc]
        exact hline _ (by simp [hfeed])
      | cons first others =>
        rw [hsplit] at hlines
        simp only [hsplit] at htext
        rcases List.mem_cons.mp htext with rfl | htext
        · rw [List.append_assoc]
          exact hline _ (by simp [hfeed, hlines first List.mem_cons_self])
        · obtain ⟨t, ht, rfl⟩ := List.mem_map.mp htext
          exact hline t (hlines t (List.mem_cons_of_mem _ ht))

/-- The lines of a legible declaration are scanned as they are written. -/
theorem lineFits_declarationLines {e : Declaration} (h : DeclarationLegible term e) :
    ∀ ps ∈ declarationLines term e, LineFits ps := by
  have hname : isWord e.name.toList = true := by
    cases e with
    | «alias» a => exact h.1
    | struct s => exact h.1
  intro ps hps
  rcases List.mem_append.mp hps with hps | hps
  · exact lineFits_headLines hname _ ps hps
  · cases e with
    | «alias» a =>
      rw [List.mem_singleton.mp hps]
      refine lineFits_typePieces hname ?_
      rw [← List.append_nil (List.map _ _)]
      exact lineFits_kinds h.2.2 trivial (not_isWordChar_of_separator (by decide))
    | struct s =>
      unfold typeLines at hps
      simp only [List.mem_cons, List.mem_append, List.mem_map, List.not_mem_nil, or_false] at hps
      rcases hps with rfl | ⟨f, hf, rfl⟩ | rfl
      · refine lineFits_typePieces hname ?_
        exact lineFits_word (by decide) (lineFits_blank (lineFits_punct _ trivial))
          (not_isWordChar_of_separator (by decide))
      · exact lineFits_fieldLine (h.2 f hf).1 (h.2 f hf).2.2
      · exact lineFits_punct _ trivial

/-- The lines before all declarations are scanned as they are written. -/
theorem lineFits_prologueLines {package : List Char} (hpackage : isWord package = true) :
    ∀ ps ∈ prologueLines package, LineFits ps := by
  intro ps hps
  unfold prologueLines at hps
  simp only [List.mem_cons, List.not_mem_nil, or_false] at hps
  rcases hps with rfl | rfl | rfl
  · exact lineFits_commentLine (by decide)
  · trivial
  · refine lineFits_word (by decide) (lineFits_blank ?_) (not_isWordChar_of_separator (by decide))
    exact lineFits_word hpackage trivial (not_isWordChar_of_separator (by decide))

/-- The text of legible declarations is scanned as the tokens of its lines. -/
theorem scan_plainText {d : Declarations} (h : ∀ e ∈ d.all, DeclarationLegible term e)
    {package : List Char} (hpackage : isWord package = true) :
    scan (plainText d package) =
      .ok ⟨ScanState.initial.emitLines (fileLines term d package),
        (ScanState.initial.passLines (fileLines term d package)).place⟩ := by
  rw [plainText_eq h]
  refine scanFrom_lines _ rfl fun ps hps => ?_
  rcases List.mem_append.mp hps with hps | hps
  · exact lineFits_prologueLines hpackage ps hps
  · obtain ⟨e, he, hps⟩ := List.mem_flatMap.mp hps
    exact lineFits_declarationLines (h e he) ps hps

end

end Go

end SchemaToGo
