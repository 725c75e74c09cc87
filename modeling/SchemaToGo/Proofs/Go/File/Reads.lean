import SchemaToGo.Proofs.Go.File.Items
import SchemaToGo.Proofs.Go.Token.Cuts
import SchemaToGo.Proofs.Result
set_option autoImplicit false

/-!
# What tokens are read as

The grammar of files with the tree that every production makes, as a relation between tokens and
trees, and the parsers of single tokens in its terms.

A comment on the line of a field belongs to the field.  So the production of a field looks at the
token after the field's semicolon, and nothing else in the grammar looks at line breaks or lines.
-/

namespace SchemaToGo.Go

/-! ## The relation -/

/-- A name that may be qualified by a package. -/
inductive ReadsName : List Token → List Char → Prop
  | plain {t : Token} {word : List Char} :
      t.kind = .word word → isKeyword word = false → ReadsName [t] word
  | qualified {t dot u : Token} {first second : List Char} :
      t.kind = .word first → isKeyword first = false → dot.kind = .punct .dot →
      u.kind = .word second → isKeyword second = false →
      ReadsName [t, dot, u] (first ++ '.' :: second)

/-- A tag or nothing. -/
inductive ReadsTag : List Token → Option (List Char) → Prop
  | none : ReadsTag [] none
  | some {t : Token} {literal : List Char} : t.kind = .str literal → ReadsTag [t] (some literal)

mutual

/-- A type. -/
inductive ReadsType : List Token → TypeExpr → Prop
  | name {ts : List Token} {name : List Char} : ReadsName ts name → ReadsType ts (.named name)
  | pointer {t : Token} {ts : List Token} {target : TypeExpr} :
      t.kind = .punct .star → ReadsType ts target → ReadsType (t :: ts) (.pointer target)
  | slice {t u : Token} {ts : List Token} {element : TypeExpr} :
      t.kind = .punct .openBracket → u.kind = .punct .closeBracket → ReadsType ts element →
      ReadsType (t :: u :: ts) (.slice element)
  | array {t u v : Token} {digits : List Char} {ts : List Token} {element : TypeExpr} :
      t.kind = .punct .openBracket → u.kind = .int digits → v.kind = .punct .closeBracket →
      ReadsType ts element → ReadsType (t :: u :: v :: ts) (.array digits element)
  | map {t u v : Token} {ts us : List Token} {key value : TypeExpr} :
      t.kind = .word "map".toList → u.kind = .punct .openBracket → ReadsType ts key →
      v.kind = .punct .closeBracket → ReadsType us value →
      ReadsType (t :: u :: (ts ++ v :: us)) (.map key value)
  | emptyInterface {t u v : Token} :
      t.kind = .word "interface".toList → u.kind = .punct .openBrace →
      v.kind = .punct .closeBrace → ReadsType [t, u, v] .emptyInterface
  | struct {t u v : Token} {ts : List Token} {members : List Member} :
      t.kind = .word "struct".toList → u.kind = .punct .openBrace → ReadsMembers ts members →
      v.kind = .punct .closeBrace →
      ReadsType (t :: u :: (ts ++ [v])) (.struct members (v.place.line ≠ u.place.line))

/-- A field: its name, if it is not embedded, its type and its tag. -/
inductive ReadsField : List Token → Option (List Char) → TypeExpr → Option (List Char) → Prop
  | named {t : Token} {word : List Char} {ts us : List Token} {type : TypeExpr}
      {tag : Option (List Char)} :
      t.kind = .word word → isKeyword word = false → ReadsType ts type → ReadsTag us tag →
      ReadsField (t :: (ts ++ us)) (some word) type tag
  | embedded {ts us : List Token} {name : List Char} {tag : Option (List Char)} :
      ReadsName ts name → ReadsTag us tag → ReadsField (ts ++ us) none (.named name) tag
  | pointer {t : Token} {ts us : List Token} {target : TypeExpr} {tag : Option (List Char)} :
      t.kind = .punct .star → ReadsType ts target → ReadsTag us tag →
      ReadsField (t :: (ts ++ us)) none (.pointer target) tag

/-- The members of a struct.  The last field needs no semicolon, since the closing brace follows. -/
inductive ReadsMembers : List Token → List Member → Prop
  | nil : ReadsMembers [] []
  | comment {t : Token} {text : List Char} {ts : List Token} {more : List Member} :
      t.kind = .comment text → ReadsMembers ts more →
      ReadsMembers (t :: ts) (.comment t.newlines text :: more)
  | last {t : Token} {ts : List Token} {name : Option (List Char)} {type : TypeExpr}
      {tag : Option (List Char)} :
      ReadsField (t :: ts) name type tag →
      ReadsMembers (t :: ts) [.field t.newlines name type tag none]
  | field {t semicolon : Token} {inserted : Bool} {ts us : List Token}
      {name : Option (List Char)} {type : TypeExpr} {tag : Option (List Char)}
      {more : List Member} :
      ReadsField (t :: ts) name type tag → semicolon.kind = .semicolon inserted →
      Parse.NoTrailingComment us → ReadsMembers us more →
      ReadsMembers (t :: (ts ++ semicolon :: us)) (.field t.newlines name type tag none :: more)
  | commented {t semicolon u : Token} {inserted : Bool} {text : List Char} {ts us : List Token}
      {name : Option (List Char)} {type : TypeExpr} {tag : Option (List Char)}
      {more : List Member} :
      ReadsField (t :: ts) name type tag → semicolon.kind = .semicolon inserted →
      u.kind = .comment text → u.newlines = 0 → ReadsMembers us more →
      ReadsMembers (t :: (ts ++ semicolon :: u :: us))
        (.field t.newlines name type tag (some text) :: more)

end

/-- A declaration ends before some tokens: a semicolon is taken off, or no tokens are left. -/
inductive Ends : List Token → List Token → Prop
  | semicolon {t : Token} {inserted : Bool} {ts : List Token} :
      t.kind = .semicolon inserted → Ends (t :: ts) ts
  | finish : Ends [] []

/-- The items of a file, after the package clause or before it. -/
inductive ReadsItems : Bool → List Token → List Item → Prop
  | nil : ReadsItems true [] []
  | comment {t : Token} {text : List Char} {packaged : Bool} {ts : List Token}
      {more : List Item} :
      t.kind = .comment text → ReadsItems packaged ts more →
      ReadsItems packaged (t :: ts) (⟨t.newlines, .comment text⟩ :: more)
  | package {t u : Token} {name : List Char} {ts us : List Token} {more : List Item} :
      t.kind = .word "package".toList → u.kind = .word name → isPackageName name = true →
      Ends ts us → ReadsItems true us more →
      ReadsItems false (t :: u :: ts) (⟨t.newlines, .package name⟩ :: more)
  | type {t u : Token} {name : List Char} {ts us vs : List Token} {type : TypeExpr}
      {more : List Item} :
      t.kind = .word "type".toList → u.kind = .word name → isKeyword name = false →
      ReadsType ts type → Ends us vs → ReadsItems true vs more →
      ReadsItems true (t :: u :: (ts ++ us)) (⟨t.newlines, .type name type⟩ :: more)

/-- A field starts with a token, and no comment. -/
theorem readsField_cons {ts : List Token} {name : Option (List Char)} {x : TypeExpr}
    {tag : Option (List Char)} (h : ReadsField ts name x tag) :
    ∃ t rest, ts = t :: rest ∧ t.kind.isComment = false := by
  cases h with
  | named ht => exact ⟨_, _, rfl, by rw [ht]; rfl⟩
  | embedded h =>
    cases h with
    | plain ht => exact ⟨_, _, rfl, by rw [ht]; rfl⟩
    | qualified ht => exact ⟨_, _, rfl, by rw [ht]; rfl⟩
  | pointer ht => exact ⟨_, _, rfl, by rw [ht]; rfl⟩

namespace Parse

variable {finish : Place}

/-! ## Single tokens -/

theorem refuse_ne_ok {α : Type} {p : Problem} {ts : List Token} {a : α} :
    (refuse finish p ts : Except FormatError α) ≠ .ok a := nofun

theorem punct_eq_ok_iff {p : Punct} {ts : List Token} {r : Unit × List Token} :
    punct finish p ts = .ok r ↔ ∃ t, ts = t :: r.2 ∧ t.kind = .punct p := by
  cases ts with
  | nil => exact ⟨nofun, fun ⟨_, h, _⟩ => nomatch h⟩
  | cons t rest =>
    show (if t.kind = .punct p then .ok ((), rest) else refuse finish _ _) = _ ↔ _
    split
    · next h =>
      constructor
      · rintro ⟨⟩
        exact ⟨t, rfl, h⟩
      · rintro ⟨_, heq, _⟩
        cases heq
        rfl
    · next h =>
      constructor
      · exact fun heq => absurd heq refuse_ne_ok
      · rintro ⟨_, heq, hkind⟩
        cases heq
        exact absurd hkind h

theorem name_eq_ok_iff {role : NameRole} {ts : List Token} {r : List Char × List Token} :
    name finish role ts = .ok r ↔
      ∃ t, ts = t :: r.2 ∧ t.kind = .word r.1 ∧ isKeyword r.1 = false := by
  cases ts with
  | nil => exact ⟨nofun, fun ⟨_, h, _⟩ => nomatch h⟩
  | cons t rest =>
    unfold name
    dsimp only
    split
    · next text hkind =>
      split
      · next hword =>
        refine ⟨fun heq => absurd heq refuse_ne_ok, ?_⟩
        rintro ⟨_, heq, hkind', hword'⟩
        cases heq
        rw [hkind] at hkind'
        cases hkind'
        rw [hword] at hword'
        cases hword'
      · next hword =>
        constructor
        · rintro ⟨⟩
          exact ⟨t, rfl, hkind, eq_false_of_ne_true hword⟩
        · rintro ⟨_, heq, hkind', _⟩
          obtain ⟨word, left⟩ := r
          cases heq
          rw [hkind] at hkind'
          cases hkind'
          rfl
    · next hkind =>
      refine ⟨fun heq => absurd heq refuse_ne_ok, ?_⟩
      rintro ⟨_, heq, hkind', _⟩
      cases heq
      exact absurd hkind' (hkind _)

theorem terminator_eq_ok_iff {ts : List Token} {r : Unit × List Token} :
    terminator finish ts = .ok r ↔ Ends ts r.2 := by
  cases ts with
  | nil =>
    constructor
    · rintro ⟨⟩
      exact .finish
    · intro h
      obtain ⟨_, left⟩ := r
      cases h
      rfl
  | cons t rest =>
    unfold terminator
    dsimp only
    split
    · next hkind =>
      constructor
      · rintro ⟨⟩
        exact .semicolon hkind
      · intro h
        obtain ⟨_, left⟩ := r
        cases h
        rfl
    · next hkind =>
      refine ⟨fun heq => absurd heq refuse_ne_ok, fun h => ?_⟩
      cases h with
      | semicolon hkind' => exact absurd hkind' (hkind _)

theorem nameRest_eq_ok_iff {first : List Char} {ts : List Token} {r : TypeExpr × List Token} :
    nameRest finish first ts = .ok r ↔
      (r = (.named first, ts) ∧ ∀ t ∈ ts.head?, t.kind ≠ .punct .dot) ∨
      ∃ dot t second, ts = dot :: t :: r.2 ∧ dot.kind = .punct .dot ∧ t.kind = .word second ∧
        isKeyword second = false ∧ r.1 = .named (first ++ '.' :: second) := by
  cases ts with
  | nil =>
    constructor
    · rintro ⟨⟩
      exact .inl ⟨rfl, nofun⟩
    · rintro (⟨rfl, _⟩ | ⟨_, _, _, h, _⟩)
      · rfl
      · cases h
  | cons dot rest =>
    unfold nameRest
    dsimp only
    split
    · next hdot =>
      rw [bind_eq_ok_iff]
      constructor
      · rintro ⟨⟨second, left⟩, hname, heq⟩
        obtain ⟨t, hrest, hkind, hword⟩ := name_eq_ok_iff.mp hname
        cases heq
        exact .inr ⟨dot, t, second, by rw [hrest], hdot, hkind, hword, rfl⟩
      · rintro (⟨_, hnone⟩ | ⟨_, t, second, heq, _, hkind, hword, hr⟩)
        · exact absurd hdot (hnone dot rfl)
        · cases heq
          refine ⟨(second, r.2), name_eq_ok_iff.mpr ⟨t, rfl, hkind, hword⟩, ?_⟩
          obtain ⟨type, left⟩ := r
          cases hr
          rfl
    · next hdot =>
      constructor
      · rintro ⟨⟩
        exact .inl ⟨rfl, fun t ht => by cases ht; exact hdot⟩
      · rintro (⟨rfl, _⟩ | ⟨_, _, _, heq, hkind, _⟩)
        · rfl
        · cases heq
          exact absurd hkind hdot

/-! ## Fields after their types -/

/-- What is read after a field's name: its type, its tag, its end, a comment on its line and the
other members. -/
def fieldWith (finish : Place) (n newlines : Nat) (name : Option (List Char))
    (type : Except FormatError (TypeExpr × List Token)) :
    Except FormatError ((List Member × Nat) × List Token) := do
  let read ← type
  let ended ← fieldEnd finish (tag read.2).2
  let more ← members finish n (trailingComment ended.2).2
  return ((.field newlines name read.1 (tag read.2).1 (trailingComment ended.2).1 :: more.1.1,
    more.1.2), more.2)

section

variable {t : Token} {rest : List Token} (n : Nat)

theorem members_embedded {word : List Char} (ht : t.kind = .word word)
    (hword : isKeyword word = false) (hrest : isEmbedded rest = true) :
    members finish (n + 1) (t :: rest) =
      fieldWith finish n t.newlines none (nameRest finish word rest) := by
  rw [members.eq_def]
  simp only [ht]
  rw [if_neg (by simp [hword]), if_pos hrest]
  rfl

theorem members_named {word : List Char} (ht : t.kind = .word word)
    (hword : isKeyword word = false) (hrest : isEmbedded rest = false) :
    members finish (n + 1) (t :: rest) =
      fieldWith finish n t.newlines (some word) (type finish n rest) := by
  rw [members.eq_def]
  simp only [ht]
  rw [if_neg (by simp [hword]), if_neg (by simp [hrest])]
  rfl

theorem members_pointer (ht : t.kind = .punct .star) :
    members finish (n + 1) (t :: rest) = fieldWith finish n t.newlines none
      (type finish n rest >>= fun r => return (.pointer r.1, r.2)) := by
  rw [members.eq_def]
  simp only [ht]
  unfold fieldWith
  cases type finish n rest <;> rfl

theorem members_comment {text : List Char} (ht : t.kind = .comment text) :
    members finish (n + 1) (t :: rest) = do
      let more ← members finish n rest
      return ((.comment t.newlines text :: more.1.1, more.1.2), more.2) := by
  rw [members.eq_def]
  simp only [ht]

end

theorem fieldEnd_eq_ok_iff {ts : List Token} {r : Unit × List Token} :
    fieldEnd finish ts = .ok r ↔ (∃ t inserted, ts = t :: r.2 ∧ t.kind = .semicolon inserted) ∨
      ∃ t rest, ts = t :: rest ∧ t.kind = .punct .closeBrace ∧ r.2 = ts := by
  cases ts with
  | nil => exact ⟨nofun, by rintro (⟨_, _, h, _⟩ | ⟨_, _, h, _⟩) <;> cases h⟩
  | cons t rest =>
    unfold fieldEnd
    dsimp only
    split
    · next hkind =>
      constructor
      · rintro ⟨⟩
        exact .inl ⟨t, _, rfl, hkind⟩
      · rintro (⟨_, _, heq, _⟩ | ⟨_, _, heq, hkind', _⟩)
        · cases heq
          rfl
        · cases heq
          rw [hkind] at hkind'
          cases hkind'
    · next hkind =>
      constructor
      · rintro ⟨⟩
        exact .inr ⟨t, rest, rfl, hkind, rfl⟩
      · rintro (⟨_, _, heq, hkind'⟩ | ⟨_, _, _, _, hr⟩)
        · cases heq
          rw [hkind] at hkind'
          cases hkind'
        · obtain ⟨_, left⟩ := r
          cases hr
          rfl
    · next hsemicolon hbrace =>
      refine ⟨fun heq => absurd heq refuse_ne_ok, ?_⟩
      rintro (⟨_, _, heq, hkind'⟩ | ⟨_, _, heq, hkind', _⟩)
      · cases heq
        exact absurd hkind' (hsemicolon _)
      · cases heq
        exact absurd hkind' hbrace

/-- A comment on the line before it is taken off, or there is none. -/
theorem trailingComment_cases (ts : List Token) :
    (trailingComment ts = (none, ts) ∧ NoTrailingComment ts) ∨
      ∃ u us text, ts = u :: us ∧ u.kind = .comment text ∧ u.newlines = 0 ∧
        trailingComment ts = (some text, us) := by
  cases ts with
  | nil => exact .inl ⟨rfl, nofun⟩
  | cons u us =>
    unfold trailingComment
    dsimp only
    split
    · next text hkind =>
      split
      · next hline => exact .inr ⟨u, us, text, rfl, hkind, hline, rfl⟩
      · next hline =>
        refine .inl ⟨rfl, fun x hx _ _ => ?_⟩
        cases hx
        exact hline
    · next hkind =>
      refine .inl ⟨rfl, fun x hx text hcomment => ?_⟩
      cases hx
      exact absurd hcomment (hkind text)

theorem readsTag_tag (ts : List Token) : ∃ used, ts = used ++ (tag ts).2 ∧
    ReadsTag used (tag ts).1 := by
  cases ts with
  | nil => exact ⟨[], rfl, .none⟩
  | cons t rest =>
    unfold tag
    split
    · next heq =>
      cases heq
      split
      · next hkind => exact ⟨[t], rfl, .some hkind⟩
      · exact ⟨[], rfl, .none⟩
    · next heq => cases heq

end Parse

end SchemaToGo.Go
