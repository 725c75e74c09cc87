import SchemaToGo.Proofs.Go.File.Parse
set_option autoImplicit false

/-!
# The grammar of the subset

The token sequences that the formatter accepts, production by production:

    File   = Comment* "package" Name Term (Comment | "type" Ident Type Term)*
    Term   = ";" | nothing, at the end of the text
    Type   = Ident ["." Ident] | "*" Type | "[" "]" Type | "[" Int "]" Type
           | "map" "[" Type "]" Type | "interface" "{" "}" | "struct" "{" Member* "}"
    Member = Comment | Field ";" | Field, before "}"
    Field  = Ident Type [Str] | Ident ["." Ident] [Str] | "*" Type [Str]

An Ident is a word that is no keyword, and a Name is one other than the blank identifier.  Main
statement: `format_ok_iff_isFile`.

Normative source: SPEC_FULL.md section 4.4.
-/

namespace SchemaToGo.Go

namespace Grammar

/-- A name that may be qualified. -/
inductive IsName : List Kind → Prop
  | plain {word : List Char} : isKeyword word = false → IsName [.word word]
  | qualified {first second : List Char} : isKeyword first = false → isKeyword second = false →
      IsName [.word first, .punct .dot, .word second]

/-- A tag or nothing. -/
inductive IsTag : List Kind → Prop
  | none : IsTag []
  | some {literal : List Char} : IsTag [.str literal]

mutual

inductive IsType : List Kind → Prop
  | name {ks : List Kind} : IsName ks → IsType ks
  | pointer {ks : List Kind} : IsType ks → IsType (.punct .star :: ks)
  | slice {ks : List Kind} : IsType ks →
      IsType (.punct .openBracket :: .punct .closeBracket :: ks)
  | array {digits : List Char} {ks : List Kind} : IsType ks →
      IsType (.punct .openBracket :: .int digits :: .punct .closeBracket :: ks)
  | map {ks ls : List Kind} : IsType ks → IsType ls →
      IsType (.word "map".toList :: .punct .openBracket :: (ks ++ .punct .closeBracket :: ls))
  | emptyInterface :
      IsType [.word "interface".toList, .punct .openBrace, .punct .closeBrace]
  | struct {ks : List Kind} : IsMembers ks →
      IsType (.word "struct".toList :: .punct .openBrace :: (ks ++ [.punct .closeBrace]))

inductive IsField : List Kind → Prop
  | named {word : List Char} {ks ls : List Kind} : isKeyword word = false → IsType ks →
      IsTag ls → IsField (.word word :: (ks ++ ls))
  | embedded {ks ls : List Kind} : IsName ks → IsTag ls → IsField (ks ++ ls)
  | pointer {ks ls : List Kind} : IsType ks → IsTag ls →
      IsField (.punct .star :: (ks ++ ls))

/-- What stands between the braces of a struct. -/
inductive IsMembers : List Kind → Prop
  | nil : IsMembers []
  | comment {text : List Char} {ks : List Kind} : IsMembers ks → IsMembers (.comment text :: ks)
  | field {inserted : Bool} {ks ls : List Kind} : IsField ks → IsMembers ls →
      IsMembers (ks ++ .semicolon inserted :: ls)
  | last {ks : List Kind} : IsField ks → IsMembers ks

end

/-- A declaration ends before some tokens: at a semicolon, or at the end of the text. -/
inductive IsEnd : List Kind → List Kind → Prop
  | semicolon {inserted : Bool} {ks : List Kind} : IsEnd (.semicolon inserted :: ks) ks
  | finish : IsEnd [] []

/-- Comments and type declarations. -/
inductive IsItems : List Kind → Prop
  | nil : IsItems []
  | comment {text : List Char} {ks : List Kind} : IsItems ks → IsItems (.comment text :: ks)
  | type {name : List Char} {ks ls ms : List Kind} : isKeyword name = false → IsType ks →
      IsEnd ls ms → IsItems ms → IsItems (.word "type".toList :: .word name :: (ks ++ ls))

/-- A file. -/
inductive IsFile : List Kind → Prop
  | comment {text : List Char} {ks : List Kind} : IsFile ks → IsFile (.comment text :: ks)
  | package {name : List Char} {ks ls : List Kind} : isKeyword name = false → name ≠ ['_'] →
      IsEnd ks ls → IsItems ls → IsFile (.word "package".toList :: .word name :: ks)

end Grammar

open Grammar

/-! ## What is read is derived -/

theorem isName_of_readsName {ts : List Token} {name : List Char} (h : ReadsName ts name) :
    IsName (ts.map Token.kind) := by
  cases h with
  | plain ht hword =>
    simp only [List.map_cons, List.map_nil, ht]
    exact .plain hword
  | qualified ht hfirst hdot hu hsecond =>
    simp only [List.map_cons, List.map_nil, ht, hdot, hu]
    exact .qualified hfirst hsecond

theorem isTag_of_readsTag {ts : List Token} {tag : Option (List Char)} (h : ReadsTag ts tag) :
    IsTag (ts.map Token.kind) := by
  cases h with
  | none => exact .none
  | some ht =>
    simp only [List.map_cons, List.map_nil, ht]
    exact .some

mutual

theorem isType_of_readsType {ts : List Token} {x : TypeExpr} :
    ReadsType ts x → IsType (ts.map Token.kind)
  | .name h => .name (isName_of_readsName h)
  | .pointer ht h => by
    rw [List.map_cons, ht]
    exact .pointer (isType_of_readsType h)
  | .slice ht hu h => by
    rw [List.map_cons, List.map_cons, ht, hu]
    exact .slice (isType_of_readsType h)
  | .array ht hu hv h => by
    rw [List.map_cons, List.map_cons, List.map_cons, ht, hu, hv]
    exact .array (isType_of_readsType h)
  | .map ht hu hkey hv hvalue => by
    rw [List.map_cons, List.map_cons, List.map_append, List.map_cons, ht, hu, hv]
    exact .map (isType_of_readsType hkey) (isType_of_readsType hvalue)
  | .emptyInterface ht hu hv => by
    simp only [List.map_cons, List.map_nil, ht, hu, hv]
    exact .emptyInterface
  | .struct ht hu h hv => by
    rw [List.map_cons, List.map_cons, List.map_append, List.map_cons, ht, hu, hv]
    exact .struct (isMembers_of_readsMembers h)

theorem isField_of_readsField {ts : List Token} {name : Option (List Char)} {x : TypeExpr}
    {tag : Option (List Char)} : ReadsField ts name x tag → IsField (ts.map Token.kind)
  | .named ht hword h htag => by
    rw [List.map_cons, List.map_append, ht]
    exact .named hword (isType_of_readsType h) (isTag_of_readsTag htag)
  | .embedded h htag => by
    rw [List.map_append]
    exact .embedded (isName_of_readsName h) (isTag_of_readsTag htag)
  | .pointer ht h htag => by
    rw [List.map_cons, List.map_append, ht]
    exact .pointer (isType_of_readsType h) (isTag_of_readsTag htag)

theorem isMembers_of_readsMembers {ts : List Token} {ms : List Member} :
    ReadsMembers ts ms → IsMembers (ts.map Token.kind)
  | .nil => .nil
  | .comment ht h => by
    rw [List.map_cons, ht]
    exact .comment (isMembers_of_readsMembers h)
  | .last h => .last (isField_of_readsField h)
  | @ReadsMembers.field t semicolon _ ts us _ _ _ _ h hsemicolon _ hmore => by
    have hkinds : (t :: (ts ++ semicolon :: us)).map Token.kind =
        (t :: ts).map Token.kind ++ semicolon.kind :: us.map Token.kind := by simp
    rw [hkinds, hsemicolon]
    exact .field (isField_of_readsField h) (isMembers_of_readsMembers hmore)
  | @ReadsMembers.commented t semicolon u _ _ ts us _ _ _ _ h hsemicolon hu _ hmore => by
    have hkinds : (t :: (ts ++ semicolon :: u :: us)).map Token.kind =
        (t :: ts).map Token.kind ++ semicolon.kind :: u.kind :: us.map Token.kind := by simp
    rw [hkinds, hsemicolon, hu]
    exact .field (isField_of_readsField h) (.comment (isMembers_of_readsMembers hmore))

end

theorem isEnd_of_ends {ts us : List Token} (h : Ends ts us) :
    IsEnd (ts.map Token.kind) (us.map Token.kind) := by
  cases h with
  | semicolon ht =>
    rw [List.map_cons, ht]
    exact .semicolon
  | finish => exact .finish

/-- Tokens that are read as a file are derived as one, and those after the package clause as
items. -/
theorem derived_of_readsItems {packaged : Bool} {ts : List Token} {its : List Item}
    (h : ReadsItems packaged ts its) :
    if packaged then IsItems (ts.map Token.kind) else IsFile (ts.map Token.kind) := by
  induction h with
  | nil => exact .nil
  | @comment t text packaged ts more ht _ ih =>
    rw [List.map_cons, ht]
    cases packaged with
    | true => exact .comment ih
    | false => exact .comment ih
  | package ht hu hname hend _ ih =>
    obtain ⟨_, hkeyword⟩ := isWord_of_isPackageName hname
    rw [List.map_cons, List.map_cons, ht, hu]
    refine .package hkeyword ?_ (isEnd_of_ends hend) ih
    rintro rfl
    exact absurd hname (by decide)
  | type ht hu hname htype hend _ ih =>
    rw [List.map_cons, List.map_cons, List.map_append, ht, hu]
    exact .type hname (isType_of_readsType htype) (isEnd_of_ends hend) ih

/-! ## What is derived is read -/

theorem exists_readsName {ts : List Token} (h : IsName (ts.map Token.kind)) :
    ∃ name, ReadsName ts name := by
  generalize hks : ts.map Token.kind = ks at h
  cases h with
  | plain hword =>
    obtain ⟨t, _, rfl, ht, hnil⟩ := List.map_eq_cons_iff.mp hks
    cases List.map_eq_nil_iff.mp hnil
    exact ⟨_, .plain ht hword⟩
  | qualified hfirst hsecond =>
    obtain ⟨t, _, rfl, ht, hks⟩ := List.map_eq_cons_iff.mp hks
    obtain ⟨dot, _, rfl, hdot, hks⟩ := List.map_eq_cons_iff.mp hks
    obtain ⟨u, _, rfl, hu, hnil⟩ := List.map_eq_cons_iff.mp hks
    cases List.map_eq_nil_iff.mp hnil
    exact ⟨_, .qualified ht hfirst hdot hu hsecond⟩

theorem exists_readsTag {ts : List Token} (h : IsTag (ts.map Token.kind)) :
    ∃ tag, ReadsTag ts tag := by
  generalize hks : ts.map Token.kind = ks at h
  cases h with
  | none =>
    cases List.map_eq_nil_iff.mp hks
    exact ⟨_, .none⟩
  | some =>
    obtain ⟨t, _, rfl, ht, hnil⟩ := List.map_eq_cons_iff.mp hks
    cases List.map_eq_nil_iff.mp hnil
    exact ⟨_, .some ht⟩

/-- The members after a comment are read on their own. -/
theorem readsMembers_after_comment {u : Token} {us : List Token} {ms : List Member}
    (h : ReadsMembers (u :: us) ms) (hu : u.kind.isComment = true) :
    ∃ more, ReadsMembers us more := by
  have hfield : ∀ {t : Token} {ts : List Token} {name : Option (List Char)} {x : TypeExpr}
      {tag : Option (List Char)}, ReadsField (t :: ts) name x tag → t.kind.isComment = false := by
    intro t ts name x tag h
    obtain ⟨_, _, heq, hkind⟩ := readsField_cons h
    cases heq
    exact hkind
  generalize htokens : u :: us = tokens at h
  cases h with
  | nil => cases htokens
  | comment _ hmore =>
    cases htokens
    exact ⟨_, hmore⟩
  | last h | field h | commented h =>
    cases htokens
    rw [hfield h] at hu
    cases hu

mutual

theorem exists_readsType {ts : List Token} : ∀ {ks : List Kind}, ts.map Token.kind = ks →
    IsType ks → ∃ x, ReadsType ts x
  | _, hks, .name h => by
    subst hks
    obtain ⟨name, hname⟩ := exists_readsName h
    exact ⟨_, .name hname⟩
  | _, hks, .pointer h => by
    obtain ⟨t, _, rfl, ht, hks⟩ := List.map_eq_cons_iff.mp hks
    obtain ⟨x, hx⟩ := exists_readsType hks h
    exact ⟨_, .pointer ht hx⟩
  | _, hks, .slice h => by
    obtain ⟨t, _, rfl, ht, hks⟩ := List.map_eq_cons_iff.mp hks
    obtain ⟨u, _, rfl, hu, hks⟩ := List.map_eq_cons_iff.mp hks
    obtain ⟨x, hx⟩ := exists_readsType hks h
    exact ⟨_, .slice ht hu hx⟩
  | _, hks, .array h => by
    obtain ⟨t, _, rfl, ht, hks⟩ := List.map_eq_cons_iff.mp hks
    obtain ⟨u, _, rfl, hu, hks⟩ := List.map_eq_cons_iff.mp hks
    obtain ⟨v, _, rfl, hv, hks⟩ := List.map_eq_cons_iff.mp hks
    obtain ⟨x, hx⟩ := exists_readsType hks h
    exact ⟨_, .array ht hu hv hx⟩
  | _, hks, .map hkey hvalue => by
    obtain ⟨t, _, rfl, ht, hks⟩ := List.map_eq_cons_iff.mp hks
    obtain ⟨u, _, rfl, hu, hks⟩ := List.map_eq_cons_iff.mp hks
    obtain ⟨keyTokens, _, rfl, hkeys, hks⟩ := List.map_eq_append_iff.mp hks
    obtain ⟨v, _, rfl, hv, hks⟩ := List.map_eq_cons_iff.mp hks
    obtain ⟨key, hkey⟩ := exists_readsType hkeys hkey
    obtain ⟨value, hvalue⟩ := exists_readsType hks hvalue
    exact ⟨_, .map ht hu hkey hv hvalue⟩
  | _, hks, .emptyInterface => by
    obtain ⟨t, _, rfl, ht, hks⟩ := List.map_eq_cons_iff.mp hks
    obtain ⟨u, _, rfl, hu, hks⟩ := List.map_eq_cons_iff.mp hks
    obtain ⟨v, _, rfl, hv, hks⟩ := List.map_eq_cons_iff.mp hks
    cases List.map_eq_nil_iff.mp hks
    exact ⟨_, .emptyInterface ht hu hv⟩
  | _, hks, .struct h => by
    obtain ⟨t, _, rfl, ht, hks⟩ := List.map_eq_cons_iff.mp hks
    obtain ⟨u, _, rfl, hu, hks⟩ := List.map_eq_cons_iff.mp hks
    obtain ⟨memberTokens, _, rfl, hmembers, hks⟩ := List.map_eq_append_iff.mp hks
    obtain ⟨v, _, rfl, hv, hks⟩ := List.map_eq_cons_iff.mp hks
    cases List.map_eq_nil_iff.mp hks
    obtain ⟨ms, hms⟩ := exists_readsMembers hmembers h
    exact ⟨_, .struct ht hu hms hv⟩

theorem exists_readsField {ts : List Token} : ∀ {ks : List Kind}, ts.map Token.kind = ks →
    IsField ks → ∃ name x tag, ReadsField ts name x tag
  | _, hks, .named hword htype htag => by
    obtain ⟨t, _, rfl, ht, hks⟩ := List.map_eq_cons_iff.mp hks
    obtain ⟨typeTokens, tagTokens, rfl, htypes, rfl⟩ := List.map_eq_append_iff.mp hks
    obtain ⟨x, hx⟩ := exists_readsType htypes htype
    obtain ⟨tag, htag⟩ := exists_readsTag htag
    exact ⟨_, _, _, .named ht hword hx htag⟩
  | _, hks, .embedded hname htag => by
    obtain ⟨nameTokens, tagTokens, rfl, rfl, rfl⟩ := List.map_eq_append_iff.mp hks
    obtain ⟨name, hname⟩ := exists_readsName hname
    obtain ⟨tag, htag⟩ := exists_readsTag htag
    exact ⟨_, _, _, .embedded hname htag⟩
  | _, hks, .pointer htype htag => by
    obtain ⟨t, _, rfl, ht, hks⟩ := List.map_eq_cons_iff.mp hks
    obtain ⟨typeTokens, tagTokens, rfl, htypes, rfl⟩ := List.map_eq_append_iff.mp hks
    obtain ⟨x, hx⟩ := exists_readsType htypes htype
    obtain ⟨tag, htag⟩ := exists_readsTag htag
    exact ⟨_, _, _, .pointer ht hx htag⟩

theorem exists_readsMembers {ts : List Token} : ∀ {ks : List Kind}, ts.map Token.kind = ks →
    IsMembers ks → ∃ ms, ReadsMembers ts ms
  | _, hks, .nil => by
    cases List.map_eq_nil_iff.mp hks
    exact ⟨_, .nil⟩
  | _, hks, .comment h => by
    obtain ⟨t, _, rfl, ht, hks⟩ := List.map_eq_cons_iff.mp hks
    obtain ⟨ms, hms⟩ := exists_readsMembers hks h
    exact ⟨_, .comment ht hms⟩
  | _, hks, .field hfield hmore => by
    obtain ⟨fieldTokens, _, rfl, hfields, hks⟩ := List.map_eq_append_iff.mp hks
    obtain ⟨semicolon, us, rfl, hsemicolon, hothers⟩ := List.map_eq_cons_iff.mp hks
    obtain ⟨name, x, tag, hread⟩ := exists_readsField hfields hfield
    obtain ⟨t, rest, rfl, _⟩ := readsField_cons hread
    obtain ⟨more, hms⟩ := exists_readsMembers hothers hmore
    rcases Parse.trailingComment_cases us with ⟨_, hnone⟩ | ⟨u, us', text, rfl, hu, hline, _⟩
    · exact ⟨_, .field hread hsemicolon hnone hms⟩
    · -- the comment that the other members start with belongs to the field
      obtain ⟨others, hothers⟩ := readsMembers_after_comment hms (by rw [hu]; rfl)
      exact ⟨_, .commented hread hsemicolon hu hline hothers⟩
  | _, hks, .last hfield => by
    obtain ⟨name, x, tag, hread⟩ := exists_readsField hks hfield
    obtain ⟨t, rest, rfl, _⟩ := readsField_cons hread
    exact ⟨_, .last hread⟩

end

theorem exists_ends {ts : List Token} {ks ls : List Kind} (hks : ts.map Token.kind = ks)
    (h : IsEnd ks ls) : ∃ us, us.map Token.kind = ls ∧ Ends ts us := by
  cases h with
  | semicolon =>
    obtain ⟨t, us, rfl, ht, hks⟩ := List.map_eq_cons_iff.mp hks
    exact ⟨us, hks, .semicolon ht⟩
  | finish =>
    cases List.map_eq_nil_iff.mp hks
    exact ⟨[], rfl, .finish⟩

theorem exists_readsItems {ts : List Token} {ks : List Kind} (hks : ts.map Token.kind = ks)
    (h : IsItems ks) : ∃ its, ReadsItems true ts its := by
  induction h generalizing ts with
  | nil =>
    cases List.map_eq_nil_iff.mp hks
    exact ⟨_, .nil⟩
  | comment _ ih =>
    obtain ⟨t, _, rfl, ht, hks⟩ := List.map_eq_cons_iff.mp hks
    obtain ⟨its, hits⟩ := ih hks
    exact ⟨_, .comment ht hits⟩
  | type hname htype hend _ ih =>
    obtain ⟨t, _, rfl, ht, hks⟩ := List.map_eq_cons_iff.mp hks
    obtain ⟨u, _, rfl, hu, hks⟩ := List.map_eq_cons_iff.mp hks
    obtain ⟨typeTokens, _, rfl, htypes, hks⟩ := List.map_eq_append_iff.mp hks
    obtain ⟨x, hx⟩ := exists_readsType htypes htype
    obtain ⟨_, hafter, hends⟩ := exists_ends hks hend
    obtain ⟨its, hits⟩ := ih hafter
    exact ⟨_, .type ht hu hname hx hends hits⟩

/-- A derived file is read, if its words are spelled as words. -/
theorem exists_readsFile {ts : List Token} {ks : List Kind} (hks : ts.map Token.kind = ks)
    (hwords : ∀ t ∈ ts, ∀ word, t.kind = .word word → isWord word = true) (h : IsFile ks) :
    ∃ its, ReadsItems false ts its := by
  induction h generalizing ts with
  | comment _ ih =>
    obtain ⟨t, ts, rfl, ht, hks⟩ := List.map_eq_cons_iff.mp hks
    obtain ⟨its, hits⟩ := ih hks fun u hu => hwords u (List.mem_cons_of_mem _ hu)
    exact ⟨_, .comment ht hits⟩
  | @package name _ _ hkeyword hblank hend hitems =>
    obtain ⟨t, _, rfl, ht, hks⟩ := List.map_eq_cons_iff.mp hks
    obtain ⟨u, _, rfl, hu, hks⟩ := List.map_eq_cons_iff.mp hks
    obtain ⟨_, hafter, hends⟩ := exists_ends hks hend
    obtain ⟨its, hits⟩ := exists_readsItems hafter hitems
    have hword : isWord name = true := hwords u (by simp) name hu
    have hname : isPackageName name = true := by
      unfold isPackageName
      rw [isIdentifier_eq, hword, hkeyword]
      simpa using hblank
    exact ⟨_, .package ht hu hname hends hits⟩

/-! ## The formatter accepts the grammar -/

/-- A text is formatted exactly if it is scanned and its tokens are derived in the grammar; these
tokens are those that the text is cut into, with a semicolon inserted wherever a token that ends a
statement is followed by a line break, a comment or the end of the text. -/
theorem format_ok_iff_isFile (source : String) :
    ((∃ t, format source = .ok t) ↔
      ∃ r, scan source.toList = .ok r ∧ IsFile (r.tokens.map Token.kind)) ∧
    ∀ r, scan source.toList = .ok r → ∃ ms, Cuts source.toList ms [] ∧
      r.tokens.map Token.kind = withSemicolons false ms := by
  refine ⟨⟨?_, ?_⟩, fun r hr => exists_withSemicolons_of_scan hr⟩
  · rintro ⟨t, ht⟩
    obtain ⟨its, hread, _⟩ := format_eq_ok_iff.mp ht
    obtain ⟨r, hr, hits⟩ := readFile_eq_ok_iff.mp hread
    exact ⟨r, hr, derived_of_readsItems hits⟩
  · rintro ⟨r, hr, hfile⟩
    have hwords : ∀ t ∈ r.tokens, ∀ word, t.kind = .word word → isWord word = true := by
      intro t ht word hword
      rcases spelled_of_scan hr t ht with hsemicolon | hspelled
      · rw [hword] at hsemicolon
        cases hsemicolon
      · rw [hword] at hspelled
        exact hspelled
    obtain ⟨its, hits⟩ := exists_readsFile rfl hwords hfile
    exact ⟨_, format_eq_ok_iff.mpr ⟨its, readFile_eq_ok_iff.mpr ⟨r, hr, hits⟩, rfl⟩⟩

end SchemaToGo.Go
