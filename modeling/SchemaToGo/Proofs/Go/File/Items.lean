import SchemaToGo.Proofs.Go.File.Types
set_option autoImplicit false

/-!
# Reading declarations

What the parser makes of the tokens of a field, a struct and a declaration, when other tokens come
after them: it goes on with these if there is no keyword where a name belongs, and refuses the text
otherwise.
-/

namespace SchemaToGo.Go.Parse

variable {finish : Place}

/-! ## Names -/

section

variable {t : Token} {word : List Char} (role : NameRole)

theorem name_cons (ht : t.kind = .word word) (hword : isKeyword word = false)
    (rest : List Token) : name finish role (t :: rest) = .ok (word, rest) := by
  simp [name, ht, hword]

theorem name_refused (finish : Place) (ht : t.kind = .word word) (hword : isKeyword word = true)
    (rest : List Token) : Refused (name finish role (t :: rest)) := by
  have hrefuse : name finish role (t :: rest) =
      refuse finish (.keywordAsName role word) (t :: rest) := by
    simp [name, ht, hword]
  exact ⟨_, hrefuse⟩

end

/-! ## Fields -/

/-- The tokens of a type start with none that an embedded field's name is followed by. -/
theorem isEmbedded_kinds (term : TypeTerm) {ts rest : List Token}
    (hts : ts.map Token.kind = term.kinds) : isEmbedded (ts ++ rest) = false := by
  cases term with
  | _ =>
    obtain ⟨t, more, rfl, ht, _⟩ := List.map_eq_cons_iff.mp hts
    unfold isEmbedded
    simp only [List.cons_append, ht]

/-- What stands after a field on its own line is no comment on that line. -/
def NoTrailingComment (rest : List Token) : Prop :=
  ∀ t ∈ rest.head?, ∀ text, t.kind = .comment text → t.newlines ≠ 0

theorem trailingComment_of_none {rest : List Token} (h : NoTrailingComment rest) :
    trailingComment rest = (none, rest) := by
  cases rest with
  | nil => rfl
  | cons t rest =>
    cases hkind : t.kind with
    | comment text => simp [trailingComment, hkind, h t rfl text hkind]
    | _ => simp [trailingComment, hkind]

/-- The tokens of a field are read as that field, and refused if its name or its type is a
keyword. -/
theorem members_field (finish : Place) {name tag : List Char} {term : TypeTerm} {t : Token}
    {ts rest : List Token} (ht : t.kind = .word name)
    (hts : ts.map Token.kind = term.kinds ++ [.str tag, .semicolon true])
    (hrest : NoTrailingComment rest) {n : Nat} (hn : ts.length ≤ n) :
    (isKeyword name = false ∧ ¬ term.HasKeyword →
      members finish (n + 1) (t :: (ts ++ rest)) = (members finish n rest).map fun r =>
        ((.field t.newlines (some name) term.expr (some tag) none :: r.1.1, r.1.2), r.2)) ∧
    (isKeyword name = true ∨ term.HasKeyword →
      Refused (members finish (n + 1) (t :: (ts ++ rest)))) := by
  obtain ⟨typeTokens, more, rfl, htype, hmore⟩ := List.map_eq_append_iff.mp hts
  obtain ⟨tagToken, more, rfl, htag, hmore⟩ := List.map_eq_cons_iff.mp hmore
  obtain ⟨semicolon, more, rfl, hsemicolon, hmore⟩ := List.map_eq_cons_iff.mp hmore
  rw [List.map_eq_nil_iff.mp hmore] at hn ⊢
  have hlength : typeTokens.length ≤ n := by
    rw [List.length_append] at hn
    omega
  have hafter : ∀ x ∈ (tagToken :: semicolon :: rest).head?, ∀ p, x.kind ≠ .punct p := by
    intro x hx p
    cases hx
    rw [htag]
    exact nofun
  obtain ⟨hread, hrefused⟩ := type_term finish term htype hafter hlength
  have hunfold : members finish (n + 1) (t :: (typeTokens ++ [tagToken, semicolon] ++ rest)) =
      if isKeyword name then refuse finish (.keywordAsName .field name)
        (t :: (typeTokens ++ [tagToken, semicolon] ++ rest))
      else do
        let read ← type finish n (typeTokens ++ tagToken :: semicolon :: rest)
        let tagged := Parse.tag read.2
        let ended ← fieldEnd finish tagged.2
        let commented := trailingComment ended.2
        let more ← members finish n commented.2
        return ((.field t.newlines (some name) read.1 tagged.1 commented.1 :: more.1.1, more.1.2),
          more.2) := by
    rw [members.eq_def]
    simp only [ht]
    rw [List.append_assoc, isEmbedded_kinds term htype]
    rfl
  rw [hunfold]
  refine ⟨fun ⟨hname, hterm⟩ => ?_, fun hkeyword => ?_⟩
  · have htag' : Parse.tag (tagToken :: semicolon :: rest) = (some tag, semicolon :: rest) := by
      simp [Parse.tag, htag]
    have hend : fieldEnd finish (semicolon :: rest) = .ok ((), rest) := by
      simp [fieldEnd, hsemicolon]
    rw [if_neg (by simp [hname]), hread hterm]
    simp only [bind, Except.bind, htag', hend, trailingComment_of_none hrest]
    cases members finish n rest <;> rfl
  · split
    · exact ⟨_, rfl⟩
    · next hname => exact (hrefused (hkeyword.resolve_left hname)).bind

theorem members_close {t : Token} (ht : t.kind = .punct .closeBrace) (n : Nat)
    (rest : List Token) : members finish (n + 1) (t :: rest) = .ok (([], t.place.line), rest) := by
  rw [members.eq_def]
  simp only [ht]

/-! ## Declarations -/

theorem terminator_semicolon {t : Token} {inserted : Bool} (ht : t.kind = .semicolon inserted)
    (rest : List Token) : terminator finish (t :: rest) = .ok ((), rest) := by
  simp [terminator, ht]

theorem items_comment {t : Token} {text : List Char} (ht : t.kind = .comment text) (n : Nat)
    (packaged : Bool) (rest : List Token) :
    items finish (n + 1) packaged (t :: rest) =
      (items finish n packaged rest).map (⟨t.newlines, .comment text⟩ :: ·) := by
  rw [items.eq_def]
  simp only [ht]
  cases items finish n packaged rest <;> rfl

theorem items_package {t t' t'' : Token} {package : List Char}
    (ht : t.kind = .word "package".toList) (ht' : t'.kind = .word package)
    (ht'' : t''.kind = .semicolon true) (hpackage : isPackageName package = true) (n : Nat)
    (rest : List Token) :
    items finish (n + 1) false (t :: t' :: t'' :: rest) =
      (items finish n true rest).map (⟨t.newlines, .package package⟩ :: ·) := by
  have hname : name finish .package (t' :: t'' :: rest) = .ok (package, t'' :: rest) :=
    name_cons .package ht' (isWord_of_isPackageName hpackage).2 _
  rw [items.eq_def]
  simp only [ht]
  rw [if_pos ⟨trivial, trivial⟩, hname]
  simp only [bind, Except.bind, hpackage, terminator_semicolon ht'']
  cases items finish n true rest <;> rfl

/-- A type declaration goes on with its name. -/
theorem items_type {t : Token} (ht : t.kind = .word "type".toList) (n : Nat) (rest : List Token) :
    items finish (n + 1) true (t :: rest) = do
      let (name, rest) ← name finish .type rest
      let (type, rest) ← type finish n rest
      let (_, rest) ← terminator finish rest
      let more ← items finish n true rest
      return ⟨t.newlines, .type name type⟩ :: more := by
  rw [items.eq_def]
  simp only [ht]
  rw [if_neg (by decide), if_pos ⟨trivial, trivial⟩]

/-- A declaration is read if its name is no keyword, its type is read and its line ends there. -/
theorem items_declaration {t t' t'' : Token} {word : List Char} {inserted : Bool}
    {type : TypeExpr} {ts rest : List Token} (ht : t.kind = .word "type".toList)
    (ht' : t'.kind = .word word) (hword : isKeyword word = false) {n : Nat}
    (htype : Parse.type finish n ts = .ok (type, t'' :: rest))
    (ht'' : t''.kind = .semicolon inserted) :
    items finish (n + 1) true (t :: t' :: ts) =
      (items finish n true rest).map (⟨t.newlines, .type word type⟩ :: ·) := by
  rw [items_type ht, name_cons .type ht' hword]
  simp only [bind, Except.bind, htype, terminator_semicolon ht'']
  cases items finish n true rest <;> rfl

/-- A declaration is refused if its name is a keyword or its type is refused. -/
theorem items_declaration_refused {t t' : Token} {word : List Char} {ts : List Token}
    (ht : t.kind = .word "type".toList) (ht' : t'.kind = .word word) {n : Nat}
    (h : isKeyword word = true ∨ Refused (Parse.type finish n ts)) :
    Refused (items finish (n + 1) true (t :: t' :: ts)) := by
  rw [items_type ht]
  cases hword : isKeyword word with
  | true => exact (name_refused .type finish ht' hword ts).bind
  | false =>
    rw [hword] at h
    rw [name_cons .type ht' hword]
    exact (h.resolve_left Bool.false_ne_true).bind

/-! ## Structs -/

theorem type_struct {t t' : Token} (ht : t.kind = .word "struct".toList)
    (ht' : t'.kind = .punct .openBrace) (n : Nat) (body : List Token) :
    type finish (n + 1) (t :: t' :: body) = (members finish n body).map fun r =>
      (.struct r.1.1 (r.1.2 ≠ t'.place.line), r.2) := by
  rw [type_word ht, if_pos rfl, punct_cons ht']
  show (members finish n body >>= _) = _
  cases members finish n body <;> rfl

end SchemaToGo.Go.Parse
