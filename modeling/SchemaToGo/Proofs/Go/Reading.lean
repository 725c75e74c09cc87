import SchemaToGo.Proofs.Go.Source
set_option autoImplicit false

/-!
# Declarations are read again

The parser reads the text of declarations as these declarations, with the line breaks that the text
has, if no name in it is a keyword, and refuses it otherwise.
-/

namespace SchemaToGo.Go

/-! ## What is read -/

/-- Comments on lines of their own, the first after so many line breaks. -/
def commentItems (newlines : Nat) : List (List Char) → List Item
  | [] => []
  | text :: more => ⟨newlines, .comment text⟩ :: commentItems 1 more

section

variable (term : String → TypeTerm)

/-- A field as a member of its struct. -/
def fieldMember (f : Field) : Member :=
  .field 1 (some f.name.toList) (term f.type).expr (some (fieldTag f)) none

/-- The type that a declaration gives its name to. -/
def declarationExpr : Declaration → TypeExpr
  | .alias a => (term a.type).expr
  | .struct s => .struct (s.fields.values.map (fieldMember term)) true

/-- A declared type as items of a file. -/
def declarationItems (e : Declaration) : List Item :=
  commentItems 2 (commentTexts e.name.toList e.description?) ++
    [⟨1, .type e.name.toList (declarationExpr term e)⟩]

/-- A file of declarations. -/
def fileItems (d : Declarations) (package : List Char) : List Item :=
  ⟨0, .comment generatedMarker.toList⟩ :: ⟨2, .package package⟩ ::
    d.all.flatMap (declarationItems term)

/-- A field's name or the name in its type is a keyword. -/
def FieldHasKeyword (f : Field) : Prop :=
  isKeyword f.name.toList = true ∨ (term f.type).HasKeyword

theorem not_fieldHasKeyword_iff {f : Field} : ¬ FieldHasKeyword term f ↔
    isKeyword f.name.toList = false ∧ ¬ (term f.type).HasKeyword := by
  unfold FieldHasKeyword
  rw [not_or, Bool.not_eq_true]

/-- A name in the declaration is a keyword. -/
def DeclarationHasKeyword : Declaration → Prop
  | .alias a => isKeyword a.name.toList = true ∨ (term a.type).HasKeyword
  | .struct s =>
    isKeyword s.name.toList = true ∨ ∃ f ∈ s.fields.values, FieldHasKeyword term f

end

/-! ## Tokens of the lines -/

/-- No punctuation mark comes first. -/
def StartsPlain (ts : List Token) : Prop := ∀ t ∈ ts.head?, ∀ p, t.kind ≠ .punct p

namespace TypeTerm

theorem isCode_of_mem_kinds (t : TypeTerm) : ∀ k ∈ t.kinds, (Piece.token k).IsCode := by
  induction t with
  | name word => simp [kinds, Piece.IsCode]
  | pointer target ih => simpa [kinds, Piece.IsCode] using ih
  | list element ih => simpa [kinds, Piece.IsCode] using ih
  | dictionary value ih => simpa [kinds, Piece.IsCode] using ih
  | anything => simp [kinds, Piece.IsCode]

/-- A type without a keyword can end a statement. -/
theorem getLast?_kinds (t : TypeTerm) :
    ∃ k, t.kinds.getLast? = some k ∧ (¬ t.HasKeyword → k.endsStatement = true) := by
  induction t with
  | name word =>
    refine ⟨_, rfl, fun h => ?_⟩
    have hword : isKeyword word = false := Bool.eq_false_iff.mpr fun hw => h ⟨word, rfl, hw⟩
    simp [Kind.endsStatement, hword]
  | pointer target ih =>
    obtain ⟨k, hk, hends⟩ := ih
    exact ⟨k, by simp [kinds, List.getLast?_cons, hk], hends⟩
  | list element ih =>
    obtain ⟨k, hk, hends⟩ := ih
    exact ⟨k, by simp [kinds, List.getLast?_cons, hk], hends⟩
  | dictionary value ih =>
    obtain ⟨k, hk, hends⟩ := ih
    exact ⟨k, by simp [kinds, List.getLast?_cons, hk], hends⟩
  | anything => exact ⟨_, rfl, fun _ => rfl⟩

end TypeTerm

theorem lineKinds_append (ps qs : List Piece) :
    lineKinds (ps ++ qs) = lineKinds ps ++ lineKinds qs := List.filterMap_append

theorem lineKinds_tokens (ks : List Kind) : lineKinds (ks.map Piece.token) = ks := by
  induction ks with
  | nil => rfl
  | cons k rest ih => exact congrArg (k :: ·) ih

namespace ScanState

theorem due_passLines {s : ScanState} (hs : s.due = false) (lines : List (List Piece)) :
    (s.passLines lines).due = false := by
  induction lines generalizing s with
  | nil => exact hs
  | cons ps rest ih => exact ih rfl

/-- After lines that are not empty there is one line break so far. -/
theorem newlines_passLines {lines : List (List Piece)} (h : ∀ ps ∈ lines, lineKinds ps ≠ [])
    {s : ScanState} (hs : lines ≠ [] ∨ s.newlines = 1) : (s.passLines lines).newlines = 1 := by
  induction lines generalizing s with
  | nil => exact hs.resolve_left fun hne => hne rfl
  | cons ps rest ih =>
    exact ih (fun ps' hps' => h ps' (List.mem_cons_of_mem _ hps'))
      (.inr (s.newlines_passLine (h ps List.mem_cons_self)))

end ScanState

theorem commentTexts_ne_nil (name : List Char) (description : Option String) :
    commentTexts name description ≠ [] := by
  unfold commentTexts
  split
  · exact List.cons_ne_nil _ _
  · split <;> exact List.cons_ne_nil _ _

/-- After the lines before a declaration there is one line break so far. -/
theorem newlines_passLines_headLines (s : ScanState) (name : List Char)
    (description : Option String) :
    (s.passLines (headLines name description)).newlines = 1 := by
  refine ScanState.newlines_passLines (s := s.passLine []) (fun ps hps => ?_) (.inl ?_)
  · obtain ⟨text, _, rfl⟩ := List.mem_map.mp hps
    exact List.cons_ne_nil _ _
  · simpa using commentTexts_ne_nil name description

/-! ## Comments -/

namespace Parse

variable {finish : Place} {s : ScanState} {n : Nat} {packaged : Bool}

theorem items_commentLines (hs : s.due = false) (texts : List (List Char)) {rest : List Token}
    (hn : (s.emitLines (texts.map commentLine) ++ rest).length ≤ n) :
    ∃ n', rest.length ≤ n' ∧
      items finish n packaged (s.emitLines (texts.map commentLine) ++ rest) =
        (items finish n' packaged rest).map (commentItems s.newlines texts ++ ·) := by
  induction texts generalizing s n with
  | nil =>
    refine ⟨n, hn, ?_⟩
    show items finish n packaged rest = _
    cases items finish n packaged rest <;> rfl
  | cons text more ih =>
    have hemit : s.emitLines ((text :: more).map commentLine) ++ rest =
        ⟨.comment text, s.place, s.newlines⟩ ::
          ((s.passLine (commentLine text)).emitLines (more.map commentLine) ++ rest) := by
      show s.emitLine (commentLine text) ++ _ ++ rest = _
      unfold commentLine
      rw [ScanState.emitLine_comment hs]
      rfl
    rw [hemit, List.length_cons] at hn
    obtain ⟨n, rfl⟩ := Nat.exists_eq_add_of_le' (Nat.le_trans (Nat.le_add_left 1 _) hn)
    obtain ⟨n', hn', hitems⟩ := ih (s := s.passLine (commentLine text)) rfl
      (Nat.le_of_succ_le_succ hn)
    have hnewlines : (s.passLine (commentLine text)).newlines = 1 :=
      s.newlines_passLine (List.cons_ne_nil _ _)
    refine ⟨n', hn', ?_⟩
    rw [hemit, items_comment rfl, hitems, hnewlines]
    cases items finish n' packaged rest <;> rfl

theorem items_headLines (finish : Place) (hs : s.due = false) (name : List Char)
    (description : Option String) {rest : List Token}
    (hn : (s.emitLines (headLines name description) ++ rest).length ≤ n) :
    ∃ n', rest.length ≤ n' ∧
      items finish n packaged (s.emitLines (headLines name description) ++ rest) =
        (items finish n' packaged rest).map
          (commentItems (s.newlines + 1) (commentTexts name description) ++ ·) := by
  have hemit : s.emitLines (headLines name description) =
      (s.passLine []).emitLines ((commentTexts name description).map commentLine) := by
    show s.emitLine [] ++ _ = _
    rw [ScanState.emitLine_nil hs]
    rfl
  rw [hemit] at hn ⊢
  exact items_commentLines (s := s.passLine []) rfl _ hn

/-! ## Aliases -/

variable {term : String → TypeTerm}

theorem isCode_typePieces {name : List Char} {ps : List Piece} (hps : ∀ p ∈ ps, p.IsCode) :
    ∀ p ∈ typePieces name ++ ps, p.IsCode := by
  intro p hp
  rcases List.mem_append.mp hp with hp | hp
  · unfold typePieces at hp
    simp only [List.mem_cons, List.not_mem_nil, or_false] at hp
    rcases hp with rfl | rfl | rfl | rfl <;> trivial
  · exact hps p hp

theorem lineKinds_typePieces (name : List Char) (ps : List Piece) :
    lineKinds (typePieces name ++ ps) =
      .word "type".toList :: .word name :: lineKinds ps := by
  rw [lineKinds_append]
  rfl

theorem isCode_kinds (t : TypeTerm) : ∀ p ∈ t.kinds.map Piece.token, p.IsCode := by
  intro p hp
  obtain ⟨k, hk, rfl⟩ := List.mem_map.mp hp
  exact t.isCode_of_mem_kinds k hk

/-- The line of an alias is read as its declaration. -/
theorem items_aliasLine (finish : Place) {a : Alias} {rest : List Token}
    (hrest : StartsPlain rest)
    (hn : (s.emitLines (typeLines term (.alias a)) ++ rest).length ≤ n) :
    (¬ DeclarationHasKeyword term (.alias a) → ∃ n', rest.length ≤ n' ∧
      items finish n true (s.emitLines (typeLines term (.alias a)) ++ rest) =
        (items finish n' true rest).map
          (⟨s.newlines, .type a.name.toList (declarationExpr term (.alias a))⟩ :: ·)) ∧
    (DeclarationHasKeyword term (.alias a) →
      Refused (items finish n true (s.emitLines (typeLines term (.alias a)) ++ rest))) := by
  obtain ⟨k, hlast, hends⟩ := (term a.type).getLast?_kinds
  have hkinds : lineKinds (typePieces a.name.toList ++ (term a.type).kinds.map .token) =
      .word "type".toList :: .word a.name.toList :: (term a.type).kinds := by
    rw [lineKinds_typePieces, lineKinds_tokens]
  have hlast' : (Kind.word "type".toList :: .word a.name.toList ::
      (term a.type).kinds).getLast?.map Kind.endsStatement = some k.endsStatement := by
    simp [List.getLast?_cons, hlast]
  obtain ⟨t₁, ts, hemit, ht₁, hnewlines, hts⟩ := s.exists_emitLine
    (isCode_typePieces (isCode_kinds _)) hkinds hlast'
  obtain ⟨t₂, ts, rfl, ht₂, hts⟩ := List.map_eq_cons_iff.mp hts
  obtain ⟨typeTokens, closing, rfl, htype, hclosing⟩ := List.map_eq_append_iff.mp hts
  have htokens : s.emitLines (typeLines term (.alias a)) ++ rest =
      t₁ :: t₂ :: (typeTokens ++ (closing ++ rest)) := by
    show s.emitLine _ ++ [] ++ rest = _
    rw [hemit]
    simp
  rw [htokens] at hn ⊢
  simp only [List.length_cons, List.length_append] at hn
  obtain ⟨n, rfl⟩ := Nat.exists_eq_add_of_le' (Nat.le_trans (Nat.le_add_left 1 _) hn)
  have hafter : StartsPlain (closing ++ rest) := by
    cases closing with
    | nil => exact hrest
    | cons c more =>
      intro x hx p
      cases hx
      cases hk : k.endsStatement with
      | false => rw [hk] at hclosing; cases hclosing
      | true =>
        rw [hk] at hclosing
        rw [(List.cons.inj hclosing).1]
        exact nofun
  obtain ⟨hread, hrefused⟩ :=
    type_term finish _ htype hafter (by omega : typeTokens.length ≤ n)
  constructor
  · intro hfine
    have hname : isKeyword a.name.toList = false :=
      Bool.eq_false_iff.mpr fun h => hfine (.inl h)
    have hterm : ¬ (term a.type).HasKeyword := fun h => hfine (.inr h)
    rw [hends hterm] at hclosing
    obtain ⟨semicolon, more, rfl, hsemicolon, hmore⟩ := List.map_eq_cons_iff.mp hclosing
    rw [List.map_eq_nil_iff.mp hmore] at hread ⊢
    refine ⟨n, by omega, ?_⟩
    rw [items_declaration ht₁ ht₂ hname (hread hterm) hsemicolon, hnewlines]
    rfl
  · intro hkeyword
    exact items_declaration_refused ht₁ ht₂ (hkeyword.imp_right hrefused)

/-! ## Structs -/

theorem isCode_fieldLine (f : Field) : ∀ p ∈ fieldLine term f, p.IsCode := by
  intro p hp
  unfold fieldLine at hp
  simp only [List.mem_append, List.mem_cons, List.not_mem_nil, or_false] at hp
  rcases hp with ((rfl | rfl | rfl) | hp) | rfl | rfl
  · trivial
  · trivial
  · trivial
  · exact isCode_kinds _ p hp
  · trivial
  · trivial

theorem lineKinds_fieldLine (f : Field) : lineKinds (fieldLine term f) =
    .word f.name.toList :: ((term f.type).kinds ++ [.str (fieldTag f)]) := by
  unfold fieldLine
  rw [lineKinds_append, lineKinds_append, lineKinds_tokens]
  rfl

/-- The tokens of a field's line. -/
theorem exists_emitLine_fieldLine (term : String → TypeTerm) (s : ScanState) (f : Field) :
    ∃ t ts, s.emitLine (fieldLine term f) = t :: ts ∧ t.kind = .word f.name.toList ∧
      t.newlines = s.newlines ∧
      ts.map Token.kind = (term f.type).kinds ++ [.str (fieldTag f), .semicolon true] := by
  have hlast : (Kind.word f.name.toList :: ((term f.type).kinds ++
      [.str (fieldTag f)])).getLast?.map Kind.endsStatement = some true := by
    simp [List.getLast?_cons, Kind.endsStatement]
  obtain ⟨t, ts, hemit, ht, hnewlines, hts⟩ :=
    s.exists_emitLine (isCode_fieldLine f) (lineKinds_fieldLine f) hlast
  refine ⟨t, ts, hemit, ht, hnewlines, ?_⟩
  rw [hts, if_pos rfl, List.append_assoc]
  rfl

/-- The lines of fields are read as the fields up to the closing brace. -/
theorem members_fieldLines (finish : Place) (hs : s.newlines = 1) {fs : List Field} {close : Token}
    (hclose : close.kind = .punct .closeBrace) {rest : List Token}
    (hn : (s.emitLines (fs.map (fieldLine term)) ++ close :: rest).length ≤ n) :
    ((∀ f ∈ fs, ¬ FieldHasKeyword term f) →
      members finish n (s.emitLines (fs.map (fieldLine term)) ++ close :: rest) =
        .ok ((fs.map (fieldMember term), close.place.line), rest)) ∧
    ((∃ f ∈ fs, FieldHasKeyword term f) →
      Refused (members finish n (s.emitLines (fs.map (fieldLine term)) ++ close :: rest))) := by
  induction fs generalizing s n with
  | nil =>
    obtain ⟨n, rfl⟩ := Nat.exists_eq_add_of_le' (Nat.le_trans (Nat.le_add_left 1 _) hn)
    refine ⟨fun _ => members_close hclose n rest, ?_⟩
    rintro ⟨f, hf, _⟩
    cases hf
  | cons f more ih =>
    obtain ⟨t, ts, hemit, ht, hnewlines, hts⟩ := exists_emitLine_fieldLine term s f
    have hcons : s.emitLines ((f :: more).map (fieldLine term)) ++ close :: rest =
        t :: (ts ++ ((s.passLine (fieldLine term f)).emitLines (more.map (fieldLine term)) ++
          close :: rest)) := by
      show s.emitLine (fieldLine term f) ++ _ ++ close :: rest = _
      rw [hemit, List.append_assoc]
      rfl
    rw [hcons] at hn ⊢
    simp only [List.length_cons, List.length_append] at hn
    obtain ⟨n, rfl⟩ := Nat.exists_eq_add_of_le' (Nat.le_trans (Nat.le_add_left 1 _) hn)
    have hs' : (s.passLine (fieldLine term f)).newlines = 1 := by
      refine s.newlines_passLine ?_
      rw [lineKinds_fieldLine]
      exact List.cons_ne_nil _ _
    have hnone : NoTrailingComment
        ((s.passLine (fieldLine term f)).emitLines (more.map (fieldLine term)) ++
          close :: rest) := by
      intro x hx text hkind
      cases more with
      | nil =>
        cases hx
        rw [hclose] at hkind
        cases hkind
      | cons g others =>
        obtain ⟨t', ts', hemit', ht', _⟩ :=
          exists_emitLine_fieldLine term (s.passLine (fieldLine term f)) g
        have hhead : x = t' := by
          rw [List.map_cons] at hx
          unfold ScanState.emitLines at hx
          rw [hemit'] at hx
          cases hx
          rfl
        rw [hhead, ht'] at hkind
        cases hkind
    obtain ⟨hread, hrefused⟩ :=
      members_field finish ht hts hnone (by omega : ts.length ≤ n)
    have hrest := ih (n := n) hs' (by
      simp only [List.length_cons, List.length_append]
      omega)
    constructor
    · intro hfine
      have hf := hfine f List.mem_cons_self
      rw [hread ((not_fieldHasKeyword_iff term).mp hf),
        hrest.1 fun g hg => hfine g (List.mem_cons_of_mem _ hg), hnewlines, hs]
      rfl
    · rintro ⟨g, hg, hkeyword⟩
      by_cases hf : FieldHasKeyword term f
      · exact hrefused hf
      · rw [hread ((not_fieldHasKeyword_iff term).mp hf)]
        rcases List.mem_cons.mp hg with rfl | hg
        · exact absurd hkeyword hf
        · exact (hrest.2 ⟨g, hg, hkeyword⟩).map

theorem isCode_openLine (name : List Char) : ∀ p ∈ openLine name, p.IsCode := by
  refine isCode_typePieces fun p hp => ?_
  simp only [List.mem_cons, List.not_mem_nil, or_false] at hp
  rcases hp with rfl | rfl | rfl <;> trivial

theorem lineKinds_openLine (name : List Char) : lineKinds (openLine name) =
    [.word "type".toList, .word name, .word "struct".toList, .punct .openBrace] :=
  lineKinds_typePieces _ _

theorem isCode_closeLine : ∀ p ∈ closeLine, p.IsCode := by
  intro p hp
  rw [List.mem_singleton.mp hp]
  trivial

/-- The tokens of a struct's lines.  Its closing brace stands on a later line than the opening
one. -/
theorem exists_emitLines_struct (term : String → TypeTerm) (s : ScanState) (str : Struct) :
    ∃ t₁ t₂ t₃ t₄ close semicolon, s.emitLines (typeLines term (.struct str)) =
        t₁ :: t₂ :: t₃ :: t₄ :: ((s.passLine (openLine str.name.toList)).emitLines
          (str.fields.values.map (fieldLine term)) ++ [close, semicolon]) ∧
      (t₁.kind = .word "type".toList ∧ t₁.newlines = s.newlines) ∧
      t₂.kind = .word str.name.toList ∧ t₃.kind = .word "struct".toList ∧
      t₄.kind = .punct .openBrace ∧ close.kind = .punct .closeBrace ∧
      semicolon.kind = .semicolon true ∧ t₄.place.line < close.place.line := by
  obtain ⟨t₁, ts, hemit, ht₁, hnewlines, hts⟩ :=
    s.exists_emitLine (isCode_openLine _) (lineKinds_openLine str.name.toList) rfl
  obtain ⟨t₂, ts, rfl, ht₂, hts⟩ := List.map_eq_cons_iff.mp hts
  obtain ⟨t₃, ts, rfl, ht₃, hts⟩ := List.map_eq_cons_iff.mp hts
  obtain ⟨t₄, ts, rfl, ht₄, hts⟩ := List.map_eq_cons_iff.mp hts
  cases List.map_eq_nil_iff.mp hts
  let s₁ := s.passLine (openLine str.name.toList)
  let s₂ := s₁.passLines (str.fields.values.map (fieldLine term))
  obtain ⟨close, ts, hemitClose, hclose, _, hts⟩ :=
    s₂.exists_emitLine isCode_closeLine (k := .punct .closeBrace) rfl rfl
  obtain ⟨semicolon, ts, rfl, hsemicolon, hts⟩ := List.map_eq_cons_iff.mp hts
  cases List.map_eq_nil_iff.mp hts
  refine ⟨t₁, t₂, t₃, t₄, close, semicolon, ?_, ⟨ht₁, hnewlines⟩, ht₂, ht₃, ht₄, hclose,
    hsemicolon, ?_⟩
  · show s.emitLine (openLine str.name.toList) ++ s₁.emitLines _ = _
    rw [hemit, ScanState.emitLines_append]
    show _ ++ (_ ++ (s₂.emitLine closeLine ++ [])) = _
    rw [hemitClose]
    rfl
  · have hhigh : t₄.place.line < s₁.place.line :=
      (s.line_of_mem_emitLine (isCode_openLine _) t₄ (by rw [hemit]; simp)).2
    have hlow := (s₂.line_of_mem_emitLine isCode_closeLine close (by rw [hemitClose]; simp)).1
    calc t₄.place.line
        < s₁.place.line := hhigh
      _ ≤ s₂.place.line := s₁.line_le_passLines _
      _ ≤ close.place.line := hlow

/-- The lines of a struct are read as its declaration. -/
theorem items_structLines (finish : Place) {str : Struct} {rest : List Token}
    (hn : (s.emitLines (typeLines term (.struct str)) ++ rest).length ≤ n) :
    (¬ DeclarationHasKeyword term (.struct str) → ∃ n', rest.length ≤ n' ∧
      items finish n true (s.emitLines (typeLines term (.struct str)) ++ rest) =
        (items finish n' true rest).map
          (⟨s.newlines, .type str.name.toList (declarationExpr term (.struct str))⟩ :: ·)) ∧
    (DeclarationHasKeyword term (.struct str) →
      Refused (items finish n true (s.emitLines (typeLines term (.struct str)) ++ rest))) := by
  let s₁ := s.passLine (openLine str.name.toList)
  obtain ⟨t₁, t₂, t₃, t₄, close, semicolon, hemit, ⟨ht₁, hnewlines⟩, ht₂, ht₃, ht₄, hclose,
    hsemicolon, hlines⟩ := exists_emitLines_struct term s str
  have htokens : s.emitLines (typeLines term (.struct str)) ++ rest =
      t₁ :: t₂ :: t₃ :: t₄ ::
        (s₁.emitLines (str.fields.values.map (fieldLine term)) ++ close :: semicolon :: rest) := by
    rw [hemit]
    simp [s₁]
  rw [htokens] at hn ⊢
  simp only [List.length_cons, List.length_append] at hn
  obtain ⟨n, rfl⟩ := Nat.exists_eq_add_of_le' (by omega : 2 ≤ n)
  have hs₁ : s₁.newlines = 1 :=
    s.newlines_passLine (by rw [lineKinds_openLine]; exact List.cons_ne_nil _ _)
  have hlength : (s₁.emitLines (str.fields.values.map (fieldLine term)) ++
      close :: semicolon :: rest).length ≤ n := by
    simp only [List.length_cons, List.length_append]
    omega
  have hfields := members_fieldLines finish hs₁ hclose hlength
  constructor
  · intro hfine
    have hname : isKeyword str.name.toList = false :=
      Bool.eq_false_iff.mpr fun h => hfine (.inl h)
    have htype : type finish (n + 1) (t₃ :: t₄ ::
        (s₁.emitLines (str.fields.values.map (fieldLine term)) ++ close :: semicolon :: rest)) =
        .ok (.struct (str.fields.values.map (fieldMember term)) true, semicolon :: rest) := by
      rw [type_struct ht₃ ht₄, hfields.1 fun f hf h => hfine (.inr ⟨f, hf, h⟩)]
      simp [Except.map, Nat.ne_of_gt hlines]
    refine ⟨n + 1, by omega, ?_⟩
    rw [items_declaration ht₁ ht₂ hname htype hsemicolon, hnewlines]
    rfl
  · intro hkeyword
    refine items_declaration_refused ht₁ ht₂ (hkeyword.imp_right fun hfield => ?_)
    rw [type_struct ht₃ ht₄]
    exact (hfields.2 hfield).map

/-! ## Files -/

theorem lineKinds_typeLines (term : String → TypeTerm) (e : Declaration) :
    ∀ ps ∈ typeLines term e, lineKinds ps ≠ [] := by
  intro ps hps
  cases e with
  | «alias» a =>
    rw [List.mem_singleton.mp hps, lineKinds_typePieces]
    exact List.cons_ne_nil _ _
  | struct s =>
    unfold typeLines at hps
    simp only [List.mem_cons, List.mem_append, List.mem_map, List.not_mem_nil, or_false] at hps
    rcases hps with rfl | ⟨f, _, rfl⟩ | rfl
    · rw [lineKinds_openLine]
      exact List.cons_ne_nil _ _
    · rw [lineKinds_fieldLine]
      exact List.cons_ne_nil _ _
    · exact List.cons_ne_nil _ _

/-- After a declaration there is one line break so far. -/
theorem newlines_passLines_declarationLines (term : String → TypeTerm) (s : ScanState)
    (e : Declaration) : (s.passLines (declarationLines term e)).newlines = 1 := by
  unfold declarationLines
  rw [ScanState.passLines_append]
  exact ScanState.newlines_passLines (lineKinds_typeLines term e)
    (.inr (newlines_passLines_headLines s _ _))

/-- Declarations start with a comment. -/
theorem startsPlain_declarations (term : String → TypeTerm) {s : ScanState} (hs : s.due = false)
    (es : List Declaration) : StartsPlain (s.emitLines (es.flatMap (declarationLines term))) := by
  cases es with
  | nil => exact nofun
  | cons e rest =>
    obtain ⟨text, more, htexts⟩ := List.exists_cons_of_ne_nil
      (commentTexts_ne_nil e.name.toList e.description?)
    have hlines : (e :: rest).flatMap (declarationLines term) = [] :: commentLine text ::
        (more.map commentLine ++ typeLines term e ++ rest.flatMap (declarationLines term)) := by
      rw [List.flatMap_cons, declarationLines, headLines, htexts]
      rfl
    intro t ht p
    rw [hlines] at ht
    unfold ScanState.emitLines at ht
    rw [ScanState.emitLine_nil hs] at ht
    unfold ScanState.emitLines commentLine at ht
    rw [ScanState.emitLine_comment rfl] at ht
    cases ht
    exact nofun

/-- The lines of a declared type are read as its declaration. -/
theorem items_declarationLines (finish : Place) (hs : s.due = false) (hnewlines : s.newlines = 1)
    {e : Declaration} {rest : List Token} (hrest : StartsPlain rest)
    (hn : (s.emitLines (declarationLines term e) ++ rest).length ≤ n) :
    (¬ DeclarationHasKeyword term e → ∃ n', rest.length ≤ n' ∧
      items finish n true (s.emitLines (declarationLines term e) ++ rest) =
        (items finish n' true rest).map (declarationItems term e ++ ·)) ∧
    (DeclarationHasKeyword term e →
      Refused (items finish n true (s.emitLines (declarationLines term e) ++ rest))) := by
  unfold declarationLines at hn ⊢
  rw [ScanState.emitLines_append, List.append_assoc] at hn ⊢
  obtain ⟨n₁, hn₁, hhead⟩ := items_headLines finish hs e.name.toList e.description? hn
  have hbody : (¬ DeclarationHasKeyword term e → ∃ n', rest.length ≤ n' ∧
      items finish n₁ true ((s.passLines (headLines e.name.toList e.description?)).emitLines
        (typeLines term e) ++ rest) = (items finish n' true rest).map
          (⟨(s.passLines (headLines e.name.toList e.description?)).newlines,
            .type e.name.toList (declarationExpr term e)⟩ :: ·)) ∧
      (DeclarationHasKeyword term e → Refused (items finish n₁ true
        ((s.passLines (headLines e.name.toList e.description?)).emitLines (typeLines term e) ++
          rest))) := by
    cases e with
    | «alias» a => exact items_aliasLine finish hrest hn₁
    | struct str => exact items_structLines finish hn₁
  rw [hhead, hnewlines]
  rw [newlines_passLines_headLines] at hbody
  constructor
  · intro hfine
    obtain ⟨n', hn', hitems⟩ := hbody.1 hfine
    refine ⟨n', hn', ?_⟩
    rw [hitems]
    cases items finish n' true rest with
    | error e => rfl
    | ok more => exact congrArg Except.ok (by simp [declarationItems])
  · exact fun hkeyword => (hbody.2 hkeyword).map

/-- The lines of declared types are read as their declarations. -/
theorem items_declarations (finish : Place) (hs : s.due = false) (hnewlines : s.newlines = 1)
    {es : List Declaration}
    (hn : (s.emitLines (es.flatMap (declarationLines term))).length ≤ n) :
    ((∀ e ∈ es, ¬ DeclarationHasKeyword term e) →
      items finish n true (s.emitLines (es.flatMap (declarationLines term))) =
        .ok (es.flatMap (declarationItems term))) ∧
    ((∃ e ∈ es, DeclarationHasKeyword term e) →
      Refused (items finish n true (s.emitLines (es.flatMap (declarationLines term))))) := by
  induction es generalizing s n with
  | nil =>
    refine ⟨fun _ => ?_, ?_⟩
    · show items finish n true [] = _
      unfold items
      rfl
    · rintro ⟨e, he, _⟩
      cases he
  | cons e rest ih =>
    rw [List.flatMap_cons, ScanState.emitLines_append] at hn ⊢
    have hs' := ScanState.due_passLines hs (declarationLines term e)
    obtain ⟨hread, hrefused⟩ := items_declarationLines finish hs hnewlines
      (startsPlain_declarations term hs' rest) hn
    constructor
    · intro hfine
      obtain ⟨n', hn', hitems⟩ := hread (hfine e List.mem_cons_self)
      rw [hitems, (ih hs' (newlines_passLines_declarationLines term s e) hn').1
        fun e' he' => hfine e' (List.mem_cons_of_mem _ he')]
      rfl
    · rintro ⟨e', he', hkeyword⟩
      by_cases hfirst : DeclarationHasKeyword term e
      · exact hrefused hfirst
      · obtain ⟨n', hn', hitems⟩ := hread hfirst
        rw [hitems]
        rcases List.mem_cons.mp he' with rfl | he'
        · exact absurd hkeyword hfirst
        · exact ((ih hs' (newlines_passLines_declarationLines term s e) hn').2
            ⟨e', he', hkeyword⟩).map

/-- The first lines of a file are read as the marker and the package clause. -/
theorem items_prologueLines (finish : Place) {package : List Char}
    (hpackage : isPackageName package = true) {rest : List Token}
    (hn : (ScanState.initial.emitLines (prologueLines package) ++ rest).length ≤ n) :
    ∃ n', rest.length ≤ n' ∧
      items finish n false (ScanState.initial.emitLines (prologueLines package) ++ rest) =
        (items finish n' true rest).map
          (⟨0, .comment generatedMarker.toList⟩ :: ⟨2, .package package⟩ :: ·) := by
  have hword := (isWord_of_isPackageName hpackage).2
  have hcode : ∀ p ∈ [Piece.token (.word "package".toList), .blank ' ', .token (.word package)],
      p.IsCode := by
    intro p hp
    simp only [List.mem_cons, List.not_mem_nil, or_false] at hp
    rcases hp with rfl | rfl | rfl <;> trivial
  have hends : [Kind.word "package".toList, .word package].getLast?.map Kind.endsStatement =
      some true := by
    simp [Kind.endsStatement, hword]
  let s₁ := (ScanState.initial.passLine (commentLine generatedMarker.toList)).passLine []
  obtain ⟨t₁, ts, hemit, ht₁, hnewlines, hts⟩ := s₁.exists_emitLine hcode rfl hends
  obtain ⟨t₂, ts, rfl, ht₂, hts⟩ := List.map_eq_cons_iff.mp hts
  obtain ⟨t₃, ts, rfl, ht₃, hts⟩ := List.map_eq_cons_iff.mp hts
  cases List.map_eq_nil_iff.mp hts
  have htokens : ScanState.initial.emitLines (prologueLines package) ++ rest =
      ⟨.comment generatedMarker.toList, .start, 0⟩ :: t₁ :: t₂ :: t₃ :: rest := by
    show ScanState.initial.emitLine (commentLine _) ++ (_ ++ (s₁.emitLine _ ++ [])) ++ rest = _
    rw [hemit, commentLine, ScanState.emitLine_comment rfl, ScanState.emitLine_nil rfl]
    rfl
  rw [htokens] at hn ⊢
  simp only [List.length_cons] at hn
  obtain ⟨n, rfl⟩ := Nat.exists_eq_add_of_le' (by omega : 2 ≤ n)
  refine ⟨n, by omega, ?_⟩
  rw [items_comment rfl, items_package ht₁ ht₂ ht₃ hpackage, hnewlines]
  cases items finish n true rest <;> rfl

end Parse

open Parse in
/-- Legible declarations in a package are read as they were written if there is no keyword among
their names, and refused otherwise. -/
theorem readFile_plainText {term : String → TypeTerm} {d : Declarations}
    (h : ∀ e ∈ d.all, DeclarationLegible term e) {package : List Char}
    (hpackage : isPackageName package = true) :
    ((∀ e ∈ d.all, ¬ DeclarationHasKeyword term e) →
      readFile (plainText d package) = .ok (fileItems term d package)) ∧
    ((∃ e ∈ d.all, DeclarationHasKeyword term e) → Refused (readFile (plainText d package))) := by
  have hword := (isWord_of_isPackageName hpackage).1
  let s := ScanState.initial.passLines (prologueLines package)
  let finish := (ScanState.initial.passLines (fileLines term d package)).place
  have hs : s.newlines = 1 := ScanState.newlines_passLine _ (List.cons_ne_nil _ _)
  have hread : readFile (plainText d package) =
      parse ⟨ScanState.initial.emitLines (fileLines term d package), finish⟩ := by
    unfold readFile
    rw [scan_plainText h hword]
    rfl
  have htokens : ScanState.initial.emitLines (fileLines term d package) =
      ScanState.initial.emitLines (prologueLines package) ++
        s.emitLines (d.all.flatMap (declarationLines term)) := ScanState.emitLines_append _ _ _
  obtain ⟨n, hn, hitems⟩ := items_prologueLines finish hpackage
    (Nat.le_refl (ScanState.initial.emitLines (prologueLines package) ++
      s.emitLines (d.all.flatMap (declarationLines term))).length)
  have hparse : readFile (plainText d package) =
      (items finish n true (s.emitLines (d.all.flatMap (declarationLines term)))).map
        (⟨0, .comment generatedMarker.toList⟩ :: ⟨2, .package package⟩ :: ·) := by
    rw [hread]
    unfold parse
    rw [htokens]
    exact hitems
  have hall := items_declarations finish (s := s) rfl hs hn
  rw [hparse]
  constructor
  · intro hfine
    rw [hall.1 hfine]
    rfl
  · exact fun hkeyword => (hall.2 hkeyword).map

end SchemaToGo.Go
