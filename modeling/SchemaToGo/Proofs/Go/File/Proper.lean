import SchemaToGo.Proofs.Go.File.Reads
set_option autoImplicit false

/-!
# Trees that can be read

Not every tree is that of a text: names are made of identifiers, array lengths of digits, tags are
string literals and comments start with two slashes.  Every tree that is read from scanned tokens is
proper in this sense: `properItems_of_readsItems`.
-/

namespace SchemaToGo.Go

/-- An identifier, or two with a dot between them. -/
inductive ProperName : List Char → Prop
  | plain {word : List Char} : isIdentifier word = true → ProperName word
  | qualified {first second : List Char} : isIdentifier first = true →
      isIdentifier second = true → ProperName (first ++ '.' :: second)

/-- A tag is a string literal. -/
def ProperTag (tag : Option (List Char)) : Prop := ∀ literal ∈ tag, (Kind.str literal).Spelled

/-- A comment on the line of a field. -/
def ProperComment (comment : Option (List Char)) : Prop :=
  ∀ text ∈ comment, (Kind.comment text).Spelled

mutual

inductive ProperType : TypeExpr → Prop
  | name {name : List Char} : ProperName name → ProperType (.named name)
  | pointer {target : TypeExpr} : ProperType target → ProperType (.pointer target)
  | slice {element : TypeExpr} : ProperType element → ProperType (.slice element)
  | array {digits : List Char} {element : TypeExpr} : (Kind.int digits).Spelled →
      ProperType element → ProperType (.array digits element)
  | map {key value : TypeExpr} : ProperType key → ProperType value → ProperType (.map key value)
  | emptyInterface : ProperType .emptyInterface
  | struct {members : List Member} {multiline : Bool} : ProperMembers members →
      ProperType (.struct members multiline)

/-- The name of a field, if it has one, and its type. -/
inductive ProperField : Option (List Char) → TypeExpr → Prop
  | named {word : List Char} {type : TypeExpr} : isIdentifier word = true → ProperType type →
      ProperField (some word) type
  | embedded {name : List Char} : ProperName name → ProperField none (.named name)
  | pointer {target : TypeExpr} : ProperType target → ProperField none (.pointer target)

inductive ProperMembers : List Member → Prop
  | nil : ProperMembers []
  | comment {newlines : Nat} {text : List Char} {more : List Member} :
      (Kind.comment text).Spelled → ProperMembers more →
      ProperMembers (.comment newlines text :: more)
  | field {newlines : Nat} {name : Option (List Char)} {type : TypeExpr}
      {tag comment : Option (List Char)} {more : List Member} :
      ProperField name type → ProperTag tag → ProperComment comment → ProperMembers more →
      ProperMembers (.field newlines name type tag comment :: more)

end

/-- The items of a file, after the package clause or before it.  An item after a comment starts a
line. -/
inductive ProperItems : Bool → List Item → Prop
  | nil : ProperItems true []
  | comment {packaged : Bool} {newlines : Nat} {text : List Char} {more : List Item} :
      (Kind.comment text).Spelled → (∀ item ∈ more.head?, 0 < item.newlines) →
      ProperItems packaged more → ProperItems packaged (⟨newlines, .comment text⟩ :: more)
  | package {newlines : Nat} {name : List Char} {more : List Item} :
      isPackageName name = true → ProperItems true more →
      ProperItems false (⟨newlines, .package name⟩ :: more)
  | type {newlines : Nat} {name : List Char} {type : TypeExpr} {more : List Item} :
      isIdentifier name = true → ProperType type → ProperItems true more →
      ProperItems true (⟨newlines, .type name type⟩ :: more)

theorem ProperItems.tail {packaged : Bool} {item : Item} {more : List Item}
    (h : ProperItems packaged (item :: more)) : ∃ packaged', ProperItems packaged' more := by
  cases h with
  | comment _ _ hmore => exact ⟨_, hmore⟩
  | package _ hmore => exact ⟨_, hmore⟩
  | type _ _ hmore => exact ⟨_, hmore⟩

/-- An item after a comment starts a line. -/
theorem ProperItems.newlines_pos {packaged : Bool} {item : Item} {more : List Item}
    (h : ProperItems packaged (item :: more)) (hitem : item.isComment = true) :
    ∀ next ∈ more.head?, 0 < next.newlines := by
  cases h with
  | comment _ hlines _ => exact hlines
  | package => cases hitem
  | type => cases hitem

/-! ## What is read is proper -/

/-- The tokens are spelled or inserted. -/
def Legible (ts : List Token) : Prop := ∀ t ∈ ts, t.kind = .semicolon true ∨ t.kind.Spelled

namespace Legible

variable {t : Token} {ts us : List Token} {k : Kind}

theorem spelled (h : Legible ts) (ht : t ∈ ts) (hkind : t.kind = k)
    (hk : k ≠ .semicolon true) : k.Spelled := by
  subst hkind
  exact (h t ht).resolve_left hk

theorem isIdentifier (h : Legible ts) (ht : t ∈ ts) {word : List Char}
    (hkind : t.kind = .word word) (hword : isKeyword word = false) :
    isIdentifier word = true := by
  have hspelled : isWord word = true := h.spelled ht hkind nofun
  rw [isIdentifier_eq, hspelled, hword]
  rfl

theorem of_subset (h : Legible ts) (hus : us ⊆ ts) : Legible us := fun t ht => h t (hus ht)

theorem left (h : Legible (ts ++ us)) : Legible ts := h.of_subset (List.subset_append_left _ _)

theorem right (h : Legible (ts ++ us)) : Legible us := h.of_subset (List.subset_append_right _ _)

theorem tail (h : Legible (t :: ts)) : Legible ts := h.of_subset (List.subset_cons_self _ _)

end Legible

theorem properName_of_readsName {ts : List Token} {name : List Char} (h : ReadsName ts name)
    (hts : Legible ts) : ProperName name := by
  cases h with
  | plain ht hword => exact .plain (hts.isIdentifier List.mem_cons_self ht hword)
  | qualified ht hfirst _ hu hsecond =>
    exact .qualified (hts.isIdentifier List.mem_cons_self ht hfirst)
      (hts.isIdentifier (by simp) hu hsecond)

theorem properTag_of_readsTag {ts : List Token} {tag : Option (List Char)} (h : ReadsTag ts tag)
    (hts : Legible ts) : ProperTag tag := by
  cases h with
  | none => exact nofun
  | some ht =>
    intro literal hliteral
    cases hliteral
    exact hts.spelled List.mem_cons_self ht nofun

mutual

theorem properType_of_readsType {ts : List Token} {x : TypeExpr} (hts : Legible ts) :
    ReadsType ts x → ProperType x
  | .name h => .name (properName_of_readsName h hts)
  | .pointer _ h => .pointer (properType_of_readsType hts.tail h)
  | .slice _ _ h => .slice (properType_of_readsType hts.tail.tail h)
  | .array _ hu _ h =>
    .array (hts.spelled (by simp) hu nofun) (properType_of_readsType hts.tail.tail.tail h)
  | .map _ _ hkey _ hvalue => .map (properType_of_readsType hts.tail.tail.left hkey)
      (properType_of_readsType hts.tail.tail.right.tail hvalue)
  | .emptyInterface .. => .emptyInterface
  | .struct _ _ h _ => .struct (properMembers_of_readsMembers hts.tail.tail.left h)

theorem properField_of_readsField {ts : List Token} {name : Option (List Char)} {x : TypeExpr}
    {tag : Option (List Char)} (hts : Legible ts) :
    ReadsField ts name x tag → ProperField name x ∧ ProperTag tag
  | .named ht hword h htag =>
    ⟨.named (hts.isIdentifier List.mem_cons_self ht hword)
      (properType_of_readsType hts.tail.left h), properTag_of_readsTag htag hts.tail.right⟩
  | .embedded h htag =>
    ⟨.embedded (properName_of_readsName h hts.left), properTag_of_readsTag htag hts.right⟩
  | .pointer _ h htag =>
    ⟨.pointer (properType_of_readsType hts.tail.left h),
      properTag_of_readsTag htag hts.tail.right⟩

theorem properMembers_of_readsMembers {ts : List Token} {ms : List Member} (hts : Legible ts) :
    ReadsMembers ts ms → ProperMembers ms
  | .nil => .nil
  | .comment ht h =>
    .comment (hts.spelled List.mem_cons_self ht nofun) (properMembers_of_readsMembers hts.tail h)
  | .last h =>
    have hfield := properField_of_readsField hts h
    .field hfield.1 hfield.2 nofun .nil
  | @ReadsMembers.field t semicolon _ ts us _ _ _ _ h _ _ hmore => by
    have hall : Legible ((t :: ts) ++ semicolon :: us) := hts
    obtain ⟨hfield, htag⟩ := properField_of_readsField hall.left h
    exact .field hfield htag nofun (properMembers_of_readsMembers hall.right.tail hmore)
  | @ReadsMembers.commented t semicolon u _ _ ts us _ _ _ _ h _ hu _ hmore => by
    have hall : Legible ((t :: ts) ++ semicolon :: u :: us) := hts
    obtain ⟨hfield, htag⟩ := properField_of_readsField hall.left h
    refine .field hfield htag (fun text htext => ?_)
      (properMembers_of_readsMembers hall.right.tail.tail hmore)
    cases htext
    exact hall.spelled (by simp) hu nofun

end

theorem suffix_of_ends {ts us : List Token} (h : Ends ts us) : us <:+ ts := by
  cases h with
  | semicolon => exact List.suffix_cons _ _
  | finish => exact List.suffix_rfl

/-- The first item has the line breaks of the first token. -/
theorem newlines_of_readsItems {packaged : Bool} {ts : List Token} {its : List Item}
    (h : ReadsItems packaged ts its) :
    its.head?.map Item.newlines = ts.head?.map Token.newlines := by
  cases h <;> rfl

/-- Items that are read from scanned tokens are proper. -/
theorem properItems_of_readsItems {packaged : Bool} {ts : List Token} {its : List Item}
    (h : ReadsItems packaged ts its) (hts : Legible ts) (hlines : ts.IsChain Token.Before) :
    ProperItems packaged its := by
  induction h with
  | nil => exact .nil
  | @comment t text packaged ts more ht hmore ih =>
    refine .comment (hts.spelled List.mem_cons_self ht nofun) (fun item hitem => ?_)
      (ih hts.tail hlines.tail)
    have hnewlines := newlines_of_readsItems hmore
    rw [Option.mem_def.mp hitem] at hnewlines
    obtain ⟨u, hu, heq⟩ := Option.map_eq_some_iff.mp hnewlines.symm
    rw [← heq]
    exact hlines.rel_head? hu (by rw [ht]; rfl)
  | package ht hu hname hend _ ih =>
    have hsuffix := suffix_of_ends hend
    exact .package hname (ih (hts.tail.tail.of_subset hsuffix.subset)
      (hlines.tail.tail.suffix hsuffix))
  | type ht hu hname htype hend _ ih =>
    have hsuffix := suffix_of_ends hend
    exact .type (hts.isIdentifier (by simp) hu hname)
      (properType_of_readsType hts.tail.tail.left htype)
      (ih (hts.tail.tail.right.of_subset hsuffix.subset)
        (hlines.tail.tail.right_of_append.suffix hsuffix))

end SchemaToGo.Go
