import SchemaToGo.Go.Format
import SchemaToGo.Proofs.Go.File.Reads
set_option autoImplicit false

/-!
# The parser and the grammar

The parser takes off exactly the tokens that the grammar reads as the tree it returns.  Soundness is
an induction on the bound, and so is completeness: every production takes a token off before it
comes to its parts, so a derivation is taken apart as the bound goes down.
-/

namespace SchemaToGo.Go

namespace Parse

variable {finish : Place} {n : Nat}

/-! ## Soundness -/

/-- What a parser takes off is read as what it returns. -/
def Sound {α : Type} (G : List Token → α → Prop) (p : Step α) : Prop :=
  ∀ ts x left, p ts = .ok (x, left) → ∃ used, ts = used ++ left ∧ G used x

/-- The members of a struct with the closing brace, and the line of that brace. -/
def ReadsBody (ts : List Token) (r : List Member × Nat) : Prop :=
  ∃ used close, ts = used ++ [close] ∧ close.kind = .punct .closeBrace ∧
    r.2 = close.place.line ∧ ReadsMembers used r.1

namespace NoTrailingComment

theorem left {ts us : List Token} (h : NoTrailingComment (ts ++ us)) : NoTrailingComment ts := by
  cases ts with
  | nil => exact nofun
  | cons t rest => exact h

theorem close {t : Token} (h : t.kind = .punct .closeBrace) (rest : List Token) :
    NoTrailingComment (t :: rest) := by
  intro u hu text hcomment
  cases hu
  rw [h] at hcomment
  cases hcomment

theorem append_close {ts : List Token} (hts : NoTrailingComment ts) {t : Token}
    (h : t.kind = .punct .closeBrace) (rest : List Token) :
    NoTrailingComment (ts ++ t :: rest) := by
  cases ts with
  | nil => exact .close h rest
  | cons first more => exact hts

end NoTrailingComment

/-- The rest of a name is sound, whatever its first word is. -/
theorem nameRest_sound {t : Token} {first : List Char} (ht : t.kind = .word first)
    (hfirst : isKeyword first = false) {ts left : List Token} {x : TypeExpr}
    (h : nameRest finish first ts = .ok (x, left)) :
    ∃ used name, ts = used ++ left ∧ ReadsName (t :: used) name ∧ x = .named name := by
  rcases nameRest_eq_ok_iff.mp h with ⟨heq, _⟩ | ⟨dot, u, second, rfl, hdot, hu, hsecond, hx⟩
  · cases heq
    exact ⟨[], first, rfl, .plain ht hfirst, rfl⟩
  · exact ⟨[dot, u], _, rfl, .qualified ht hfirst hdot hu hsecond, hx⟩

/-- A field with what comes after it is sound, if its name and its type are. -/
theorem fieldWith_sound (ih : Sound ReadsBody (members finish n)) {t : Token}
    {name : Option (List Char)} {ts left : List Token} {r : List Member × Nat}
    {read : Except FormatError (TypeExpr × List Token)}
    (hread : ∀ type rest, read = .ok (type, rest) → ∃ used, ts = used ++ rest ∧
      ∀ us tag, ReadsTag us tag → ReadsField (t :: (used ++ us)) name type tag)
    (h : fieldWith finish n t.newlines name read = .ok (r, left)) :
    ∃ used, t :: ts = used ++ left ∧ ReadsBody used r := by
  obtain ⟨⟨type, rest⟩, htype, h⟩ := bind_eq_ok_iff.mp h
  obtain ⟨typeTokens, rfl, hfield⟩ := hread type rest htype
  obtain ⟨tagTokens, hrest, htag⟩ := readsTag_tag rest
  have hfield := hfield tagTokens _ htag
  obtain ⟨⟨_, afterEnd⟩, hend, h⟩ := bind_eq_ok_iff.mp h
  obtain ⟨⟨⟨more, last⟩, left'⟩, hmore, h⟩ := bind_eq_ok_iff.mp h
  cases h
  have htokens : t :: (typeTokens ++ rest) =
      t :: ((typeTokens ++ tagTokens) ++ (tag rest).2) := by
    rw [List.append_assoc, ← hrest]
  rw [htokens]
  rcases fieldEnd_eq_ok_iff.mp hend with ⟨semicolon, inserted, hafter, hsemicolon⟩ |
    ⟨close, others, hafter, hclose, hsame⟩
  · rw [hafter]
    rcases trailingComment_cases afterEnd with ⟨hcomment, hnone⟩ |
      ⟨u, us, text, rfl, hu, hline, hcomment⟩
    · rw [hcomment] at hmore ⊢
      obtain ⟨_, rfl, used, close, rfl, hclose, hlast, hmembers⟩ := ih _ _ _ hmore
      refine ⟨t :: ((typeTokens ++ tagTokens) ++ semicolon :: used) ++ [close], by simp, _, close,
        rfl, hclose, hlast, ?_⟩
      exact .field hfield hsemicolon (NoTrailingComment.left (by simpa using hnone)) hmembers
    · rw [hcomment] at hmore ⊢
      obtain ⟨_, rfl, used, close, rfl, hclose, hlast, hmembers⟩ := ih _ _ _ hmore
      refine ⟨t :: ((typeTokens ++ tagTokens) ++ semicolon :: u :: used) ++ [close], by simp, _,
        close, rfl, hclose, hlast, ?_⟩
      exact .commented hfield hsemicolon hu hline hmembers
  · -- the closing brace is left in place, and the other members end with it
    cases hsame
    rw [hafter] at hmore ⊢
    rw [trailingComment_of_none (.close hclose others)] at hmore ⊢
    cases n with
    | zero => exact absurd hmore refuse_ne_ok
    | succ n =>
      rw [members_close hclose] at hmore
      cases hmore
      exact ⟨t :: (typeTokens ++ tagTokens) ++ [close], by simp, _, close, rfl, hclose, rfl,
        .last hfield⟩

/-- A type that starts with a word is sound. -/
theorem type_word_sound (ihType : Sound ReadsType (type finish n))
    (ihMembers : Sound ReadsBody (members finish n)) {t : Token} {word : List Char}
    (ht : t.kind = .word word) {ts left : List Token} {x : TypeExpr}
    (h : type finish (n + 1) (t :: ts) = .ok (x, left)) :
    ∃ used, t :: ts = used ++ left ∧ ReadsType used x := by
  rw [type_word ht] at h
  split at h
  · next hword =>
    rw [hword] at ht
    obtain ⟨⟨_, body⟩, hopen, h⟩ := bind_eq_ok_iff.mp h
    obtain ⟨⟨⟨ms, last⟩, left'⟩, hmembers, h⟩ := bind_eq_ok_iff.mp h
    cases h
    obtain ⟨u, rfl, hu⟩ := punct_eq_ok_iff.mp hopen
    obtain ⟨_, rfl, used, close, rfl, hclose, hlast, hread⟩ := ihMembers _ _ _ hmembers
    refine ⟨t :: u :: (used ++ [close]), by simp, ?_⟩
    dsimp only at hlast
    rw [hlast]
    exact .struct ht hu hread hclose
  split at h
  · next hword =>
    rw [hword] at ht
    obtain ⟨⟨_, rest⟩, hopen, h⟩ := bind_eq_ok_iff.mp h
    obtain ⟨⟨_, left'⟩, hclose, h⟩ := bind_eq_ok_iff.mp h
    cases h
    obtain ⟨u, rfl, hu⟩ := punct_eq_ok_iff.mp hopen
    obtain ⟨v, rfl, hv⟩ := punct_eq_ok_iff.mp hclose
    exact ⟨[t, u, v], rfl, .emptyInterface ht hu hv⟩
  split at h
  · next hword =>
    rw [hword] at ht
    obtain ⟨⟨_, rest⟩, hopen, h⟩ := bind_eq_ok_iff.mp h
    obtain ⟨⟨key, afterKey⟩, hkey, h⟩ := bind_eq_ok_iff.mp h
    obtain ⟨⟨_, afterBracket⟩, hclose, h⟩ := bind_eq_ok_iff.mp h
    obtain ⟨⟨value, left'⟩, hvalue, h⟩ := bind_eq_ok_iff.mp h
    cases h
    obtain ⟨u, rfl, hu⟩ := punct_eq_ok_iff.mp hopen
    obtain ⟨keyTokens, rfl, hreadKey⟩ := ihType _ _ _ hkey
    obtain ⟨v, rfl, hv⟩ := punct_eq_ok_iff.mp hclose
    obtain ⟨valueTokens, rfl, hreadValue⟩ := ihType _ _ _ hvalue
    exact ⟨t :: u :: (keyTokens ++ v :: valueTokens), by simp,
      .map ht hu hreadKey hv hreadValue⟩
  split at h
  · exact absurd h refuse_ne_ok
  · next hword =>
    obtain ⟨used, name, rfl, hname, rfl⟩ := nameRest_sound ht (eq_false_of_ne_true hword) h
    exact ⟨t :: used, rfl, .name hname⟩

/-- A type that starts with a bracket is sound. -/
theorem type_bracket_sound (ih : Sound ReadsType (type finish n)) {t : Token}
    (ht : t.kind = .punct .openBracket) {ts left : List Token} {x : TypeExpr}
    (h : type finish (n + 1) (t :: ts) = .ok (x, left)) :
    ∃ used, t :: ts = used ++ left ∧ ReadsType used x := by
  rw [type.eq_def] at h
  simp only [ht] at h
  cases ts with
  | nil => exact absurd h refuse_ne_ok
  | cons u rest =>
    dsimp only at h
    split at h
    · next hu =>
      obtain ⟨⟨element, left'⟩, helement, h⟩ := bind_eq_ok_iff.mp h
      cases h
      obtain ⟨used, rfl, hread⟩ := ih _ _ _ helement
      exact ⟨t :: u :: used, rfl, .slice ht hu hread⟩
    · next digits hu =>
      obtain ⟨⟨_, rest'⟩, hclose, h⟩ := bind_eq_ok_iff.mp h
      obtain ⟨⟨element, left'⟩, helement, h⟩ := bind_eq_ok_iff.mp h
      cases h
      obtain ⟨v, rfl, hv⟩ := punct_eq_ok_iff.mp hclose
      obtain ⟨used, rfl, hread⟩ := ih _ _ _ helement
      exact ⟨t :: u :: v :: used, rfl, .array ht hu hv hread⟩
    · exact absurd h refuse_ne_ok

/-- The members of a struct that start with a word are sound. -/
theorem members_word_sound (ihType : Sound ReadsType (type finish n))
    (ihMembers : Sound ReadsBody (members finish n)) {t : Token} {word : List Char}
    (ht : t.kind = .word word) {ts left : List Token} {r : List Member × Nat}
    (h : members finish (n + 1) (t :: ts) = .ok (r, left)) :
    ∃ used, t :: ts = used ++ left ∧ ReadsBody used r := by
  cases hword : isKeyword word with
  | true =>
    rw [members.eq_def] at h
    simp only [ht] at h
    rw [if_pos hword] at h
    exact absurd h refuse_ne_ok
  | false =>
    cases hembedded : isEmbedded ts with
    | true =>
      rw [members_embedded n ht hword hembedded] at h
      refine fieldWith_sound ihMembers (fun type rest hname => ?_) h
      obtain ⟨used, name, rfl, hread, rfl⟩ := nameRest_sound ht hword hname
      exact ⟨used, rfl, fun us tag htag => .embedded hread htag⟩
    | false =>
      rw [members_named n ht hword hembedded] at h
      refine fieldWith_sound ihMembers (fun type rest htype => ?_) h
      obtain ⟨used, rfl, hread⟩ := ihType _ _ _ htype
      exact ⟨used, rfl, fun us tag htag => .named ht hword hread htag⟩

/-- Types and the members of structs are sound. -/
theorem type_members_sound (finish : Place) (n : Nat) :
    Sound ReadsType (type finish n) ∧ Sound ReadsBody (members finish n) := by
  induction n with
  | zero => exact ⟨fun ts x left h => absurd h refuse_ne_ok,
      fun ts x left h => absurd h refuse_ne_ok⟩
  | succ n ih =>
    obtain ⟨ihType, ihMembers⟩ := ih
    constructor
    · intro ts x left h
      cases ts with
      | nil => exact absurd h refuse_ne_ok
      | cons t rest =>
        cases ht : t.kind with
        | word word => exact type_word_sound ihType ihMembers ht h
        | punct p =>
          cases p with
          | star =>
            rw [type_star ht] at h
            obtain ⟨⟨target, left'⟩, htarget, h⟩ := bind_eq_ok_iff.mp h
            cases h
            obtain ⟨used, rfl, hread⟩ := ihType _ _ _ htarget
            exact ⟨t :: used, rfl, .pointer ht hread⟩
          | openBracket => exact type_bracket_sound ihType ht h
          | _ =>
            rw [type.eq_def] at h
            simp only [ht] at h
            exact absurd h refuse_ne_ok
        | _ =>
          rw [type.eq_def] at h
          simp only [ht] at h
          exact absurd h refuse_ne_ok
    · intro ts r left h
      cases ts with
      | nil => exact absurd h refuse_ne_ok
      | cons t rest =>
        cases ht : t.kind with
        | word word => exact members_word_sound ihType ihMembers ht h
        | comment text =>
          rw [members_comment n ht] at h
          obtain ⟨more, hmore, h⟩ := bind_eq_ok_iff.mp h
          cases h
          obtain ⟨_, rfl, used, close, rfl, hclose, hlast, hread⟩ := ihMembers _ _ _ hmore
          exact ⟨t :: used ++ [close], by simp, _, close, rfl, hclose, hlast, .comment ht hread⟩
        | punct p =>
          cases p with
          | closeBrace =>
            rw [members_close ht] at h
            cases h
            exact ⟨[t], rfl, [], t, rfl, ht, rfl, .nil⟩
          | star =>
            rw [members_pointer n ht] at h
            refine fieldWith_sound ihMembers (fun type rest htype => ?_) h
            obtain ⟨⟨target, rest'⟩, htarget, htype⟩ := bind_eq_ok_iff.mp htype
            cases htype
            obtain ⟨used, rfl, hread⟩ := ihType _ _ _ htarget
            exact ⟨used, rfl, fun us tag htag => .pointer ht hread htag⟩
          | _ =>
            rw [members.eq_def] at h
            simp only [ht] at h
            exact absurd h refuse_ne_ok
        | _ =>
          rw [members.eq_def] at h
          simp only [ht] at h
          exact absurd h refuse_ne_ok

/-- The package clause goes on with its name. -/
theorem items_clause {t : Token} (ht : t.kind = .word "package".toList) (n : Nat)
    (rest : List Token) : items finish (n + 1) false (t :: rest) = do
      let name ← name finish .package rest
      if isPackageName name.1 = false then
        refuse finish (.invalidPackageName name.1) (t :: rest)
      else do
        let ended ← terminator finish name.2
        let more ← items finish n true ended.2
        return ⟨t.newlines, .package name.1⟩ :: more := by
  rw [items.eq_def]
  simp only [ht]
  rw [if_pos ⟨trivial, trivial⟩]
  cases name finish .package rest with
  | error e => rfl
  | ok name =>
    show (if isPackageName name.1 = false then _ else _) =
      if isPackageName name.1 = false then _ else _
    split <;> rfl

/-- The items of a file are sound: all tokens are read. -/
theorem items_sound {packaged : Bool} {ts : List Token} {its : List Item}
    (h : items finish n packaged ts = .ok its) : ReadsItems packaged ts its := by
  induction n generalizing packaged ts its with
  | zero =>
    cases ts with
    | nil =>
      cases packaged with
      | true => cases h; exact .nil
      | false => exact absurd h refuse_ne_ok
    | cons t rest => cases packaged <;> exact absurd h refuse_ne_ok
  | succ n ih =>
    cases ts with
    | nil =>
      cases packaged with
      | true => cases h; exact .nil
      | false => exact absurd h refuse_ne_ok
    | cons t rest =>
      cases ht : t.kind with
      | comment text =>
        rw [items_comment ht] at h
        cases hmore : items finish n packaged rest with
        | error e => rw [hmore] at h; cases h
        | ok more =>
          rw [hmore] at h
          cases h
          exact .comment ht (ih hmore)
      | word word =>
        by_cases hpackage : word = "package".toList ∧ packaged = false
        · obtain ⟨rfl, rfl⟩ := hpackage
          rw [items_clause ht] at h
          obtain ⟨⟨name, afterName⟩, hname, h⟩ := bind_eq_ok_iff.mp h
          split at h
          · exact absurd h refuse_ne_ok
          · next hvalid =>
            obtain ⟨⟨_, afterEnd⟩, hend, h⟩ := bind_eq_ok_iff.mp h
            obtain ⟨more, hmore, h⟩ := bind_eq_ok_iff.mp h
            cases h
            obtain ⟨u, rfl, hu, _⟩ := name_eq_ok_iff.mp hname
            exact .package ht hu (by simpa using hvalid) (terminator_eq_ok_iff.mp hend) (ih hmore)
        · by_cases htype : word = "type".toList ∧ packaged = true
          · obtain ⟨rfl, rfl⟩ := htype
            rw [items_type ht] at h
            obtain ⟨⟨name, afterName⟩, hname, h⟩ := bind_eq_ok_iff.mp h
            obtain ⟨⟨type, afterType⟩, htype, h⟩ := bind_eq_ok_iff.mp h
            obtain ⟨⟨_, afterEnd⟩, hend, h⟩ := bind_eq_ok_iff.mp h
            obtain ⟨more, hmore, h⟩ := bind_eq_ok_iff.mp h
            cases h
            obtain ⟨u, rfl, hu, hword⟩ := name_eq_ok_iff.mp hname
            obtain ⟨used, rfl, hread⟩ := (type_members_sound finish n).1 _ _ _ htype
            exact .type ht hu hword hread (terminator_eq_ok_iff.mp hend) (ih hmore)
          · rw [items.eq_def] at h
            simp only [ht] at h
            rw [if_neg hpackage, if_neg htype] at h
            exact absurd h refuse_ne_ok
      | _ =>
        rw [items.eq_def] at h
        simp only [ht] at h
        exact absurd h refuse_ne_ok

/-! ## Completeness -/

/-- No dot comes first, which would go on with a name. -/
def NoDot (ts : List Token) : Prop := ∀ t ∈ ts.head?, t.kind ≠ .punct .dot

/-- A field ends here: at a semicolon, or before a closing brace. -/
def EndsField (ts : List Token) : Prop :=
  ∃ t rest, ts = t :: rest ∧ ((∃ inserted, t.kind = .semicolon inserted) ∨
    t.kind = .punct .closeBrace)

/-- The parser of types is complete for types of at most so many tokens. -/
def CompleteType (finish : Place) (n : Nat) : Prop :=
  ∀ ts x rest, ReadsType ts x → ts.length ≤ n → NoDot rest →
    type finish n (ts ++ rest) = .ok (x, rest)

/-- The parser of members is complete for members of fewer tokens, up to the closing brace. -/
def CompleteMembers (finish : Place) (n : Nat) : Prop :=
  ∀ ts ms close rest, ReadsMembers ts ms → close.kind = .punct .closeBrace → ts.length < n →
    members finish n (ts ++ close :: rest) = .ok ((ms, close.place.line), rest)

theorem noDot_cons {t : Token} {k : Kind} (ht : t.kind = k) (hk : k ≠ .punct .dot)
    (ts : List Token) : NoDot (t :: ts) := by
  intro x hx
  cases hx
  rw [ht]
  exact hk

theorem EndsField.noDot {ts : List Token} (h : EndsField ts) : NoDot ts := by
  obtain ⟨t, rest, rfl, ⟨_, ht⟩ | ht⟩ := h
  · exact noDot_cons ht (by simp) rest
  · exact noDot_cons ht (by simp) rest

theorem EndsField.isEmbedded {ts : List Token} (h : EndsField ts) : isEmbedded ts = true := by
  unfold Parse.isEmbedded
  obtain ⟨t, rest, rfl, ⟨_, ht⟩ | ht⟩ := h <;> simp [ht]

/-- A tag is read before the end of a field. -/
theorem tag_append {us rest : List Token} {literal : Option (List Char)}
    (h : ReadsTag us literal) (hrest : EndsField rest) : tag (us ++ rest) = (literal, rest) := by
  cases h with
  | none =>
    obtain ⟨t, more, rfl, ⟨_, ht⟩ | ht⟩ := hrest <;> simp [tag, ht]
  | some ht => simp [tag, ht]

/-- A tag and the end of a field go on with no name. -/
theorem readsTag_noDot {us rest : List Token} {literal : Option (List Char)}
    (h : ReadsTag us literal) (hrest : EndsField rest) : NoDot (us ++ rest) := by
  cases h with
  | none => exact hrest.noDot
  | some ht => exact noDot_cons ht (by simp) _

/-- A field whose name is its type is known by what follows the name. -/
theorem readsTag_isEmbedded {us rest : List Token} {literal : Option (List Char)}
    (h : ReadsTag us literal) (hrest : EndsField rest) : isEmbedded (us ++ rest) = true := by
  cases h with
  | none => exact hrest.isEmbedded
  | some ht => simp [Parse.isEmbedded, ht]

/-- The tokens of a type start with one that a field's name may be followed by. -/
theorem readsType_not_isEmbedded {ts : List Token} {x : TypeExpr} (h : ReadsType ts x)
    (rest : List Token) : isEmbedded (ts ++ rest) = false := by
  unfold Parse.isEmbedded
  cases h with
  | name hname => cases hname with
    | plain ht => simp [ht]
    | qualified ht => simp [ht]
  | pointer ht => simp [ht]
  | slice ht => simp [ht]
  | array ht => simp [ht]
  | map ht => simp [ht]
  | emptyInterface ht => simp [ht]
  | struct ht => simp [ht]

theorem readsType_length_pos {ts : List Token} {x : TypeExpr} (h : ReadsType ts x) :
    0 < ts.length := by
  cases ts with
  | nil => have := readsType_not_isEmbedded h [⟨.semicolon true, .start, 0⟩]; cases this
  | cons t rest => exact Nat.succ_pos _

/-- A name that may be qualified is read up to something other than a dot. -/
theorem nameRest_complete {t : Token} {word name : List Char} (ht : t.kind = .word word)
    {ts rest : List Token} (h : ReadsName (t :: ts) name) (hrest : NoDot rest) :
    nameRest finish word (ts ++ rest) = .ok (.named name, rest) := by
  cases h with
  | plain ht' =>
    rw [ht] at ht'
    cases ht'
    exact nameRest_eq_ok_iff.mpr (.inl ⟨rfl, hrest⟩)
  | qualified ht' _ hdot hu hsecond =>
    rw [ht] at ht'
    cases ht'
    exact nameRest_eq_ok_iff.mpr (.inr ⟨_, _, _, rfl, hdot, hu, hsecond, rfl⟩)

theorem readsName_first {t : Token} {ts : List Token} {name : List Char}
    (h : ReadsName (t :: ts) name) : ∃ word, t.kind = .word word ∧ isKeyword word = false := by
  cases h with
  | plain ht hword => exact ⟨_, ht, hword⟩
  | qualified ht hword => exact ⟨_, ht, hword⟩

/-- A type that is a word other than those that start the other types. -/
theorem type_of_nameRest {t : Token} {word : List Char} (ht : t.kind = .word word)
    (hword : isKeyword word = false) (rest : List Token) :
    type finish (n + 1) (t :: rest) = nameRest finish word rest := by
  rw [type_word ht, if_neg (not_isKeyword_ne hword (by decide)),
    if_neg (not_isKeyword_ne hword (by decide)), if_neg (not_isKeyword_ne hword (by decide)),
    if_neg (by simp [hword])]

theorem completeType_succ (ihType : CompleteType finish n)
    (ihMembers : CompleteMembers finish n) : CompleteType finish (n + 1) := by
  intro ts x rest h hn hrest
  cases h with
  | name hname =>
    obtain ⟨t, us, rfl⟩ : ∃ t us, ts = t :: us := by
      cases hname with
      | plain => exact ⟨_, _, rfl⟩
      | qualified => exact ⟨_, _, rfl⟩
    obtain ⟨word, ht, hword⟩ := readsName_first hname
    rw [List.cons_append, type_of_nameRest ht hword]
    exact nameRest_complete ht hname hrest
  | pointer ht htarget =>
    rw [List.cons_append, type_star ht, ihType _ _ _ htarget (Nat.le_of_succ_le_succ hn) hrest]
    rfl
  | slice ht hu helement =>
    simp only [List.length_cons] at hn
    rw [List.cons_append, List.cons_append, type_slice ht hu,
      ihType _ _ _ helement (by omega) hrest]
    rfl
  | @array t u v digits ts element ht hu hv helement =>
    simp only [List.length_cons] at hn
    have hread := ihType _ _ _ helement (by omega) hrest
    have hclose : punct finish .closeBracket (v :: (ts ++ rest)) = .ok ((), ts ++ rest) :=
      punct_cons hv _
    rw [type.eq_def]
    simp only [List.cons_append, ht, hu, hclose, hread, bind, Except.bind]
    rfl
  | @map t u v ts us key value ht hu hkey hv hvalue =>
    simp only [List.length_cons, List.length_append] at hn
    have hreadKey := ihType _ _ (v :: (us ++ rest)) hkey (by omega)
      (noDot_cons hv (by decide) _)
    have hreadValue := ihType _ _ _ hvalue (by omega) hrest
    have hclose : punct finish .closeBracket (v :: (us ++ rest)) = .ok ((), us ++ rest) :=
      punct_cons hv _
    rw [List.cons_append, type_word ht, if_neg (by decide), if_neg (by decide), if_pos rfl]
    simp only [List.cons_append, List.append_assoc, punct_cons hu, hreadKey, hclose, hreadValue,
      bind, Except.bind]
    rfl
  | emptyInterface ht hu hv => exact type_interface ht hu hv n rest
  | @struct t u v ts ms ht hu hmembers hv =>
    simp only [List.length_cons, List.length_append, List.length_nil] at hn
    have hread := ihMembers _ _ v rest hmembers hv (by omega)
    simp only [List.cons_append, List.append_assoc, List.nil_append]
    rw [type_struct ht hu, hread]
    rfl

/-- A field is read up to its end. -/
theorem members_field_complete (ihType : CompleteType finish n) {t : Token} {ts rest : List Token}
    {name : Option (List Char)} {x : TypeExpr} {literal : Option (List Char)}
    (h : ReadsField (t :: ts) name x literal) (hn : ts.length ≤ n) (hrest : EndsField rest) :
    members finish (n + 1) (t :: (ts ++ rest)) = do
      let ended ← fieldEnd finish rest
      let more ← members finish n (trailingComment ended.2).2
      return ((.field t.newlines name x literal (trailingComment ended.2).1 :: more.1.1,
        more.1.2), more.2) := by
  have hwith : ∀ {us : List Token} {literal : Option (List Char)}, ReadsTag us literal →
      ∀ (name : Option (List Char)) (x : TypeExpr),
      fieldWith finish n t.newlines name (.ok (x, us ++ rest)) = do
        let ended ← fieldEnd finish rest
        let more ← members finish n (trailingComment ended.2).2
        return ((.field t.newlines name x literal (trailingComment ended.2).1 :: more.1.1,
          more.1.2), more.2) := by
    intro us literal htag name x
    show (fieldEnd finish (tag (us ++ rest)).2 >>= _) = _
    rw [tag_append htag hrest]
  generalize htokens : t :: ts = tokens at h
  cases h with
  | @named t' word ts' us type tag ht hword htype htag =>
    cases htokens
    rw [List.length_append] at hn
    have hread := ihType _ _ (us ++ rest) htype (by omega) (readsTag_noDot htag hrest)
    rw [List.append_assoc, members_named n ht hword (readsType_not_isEmbedded htype _), hread]
    exact hwith htag _ _
  | @embedded ts' us name tag hname htag =>
    obtain ⟨rest', htokens'⟩ : ∃ rest', ts' = t :: rest' := by
      cases hname with
      | plain => cases htokens; exact ⟨_, rfl⟩
      | qualified => cases htokens; exact ⟨_, rfl⟩
    subst htokens'
    obtain rfl : ts = rest' ++ us := (List.cons.inj htokens).2
    obtain ⟨word, ht, hword⟩ := readsName_first hname
    have hembedded : isEmbedded (rest' ++ (us ++ rest)) = true := by
      cases hname with
      | plain =>
        show isEmbedded (us ++ rest) = true
        exact readsTag_isEmbedded htag hrest
      | qualified _ _ hdot => simp [Parse.isEmbedded, hdot]
    rw [List.append_assoc, members_embedded n ht hword hembedded,
      nameRest_complete ht hname (readsTag_noDot htag hrest)]
    exact hwith htag _ _
  | @pointer t' ts' us target tag ht htarget htag =>
    cases htokens
    rw [List.length_append] at hn
    have hread := ihType _ _ (us ++ rest) htarget (by omega) (readsTag_noDot htag hrest)
    rw [List.append_assoc, members_pointer n ht, hread]
    exact hwith htag _ _

theorem completeMembers_succ (ihType : CompleteType finish n)
    (ihMembers : CompleteMembers finish n) : CompleteMembers finish (n + 1) := by
  intro ts ms close rest h hclose hn
  cases h with
  | nil => exact members_close hclose n rest
  | comment ht hmore =>
    rw [List.cons_append, members_comment n ht,
      ihMembers _ _ close rest hmore hclose (Nat.lt_of_succ_lt_succ hn)]
    rfl
  | last hfield =>
    simp only [List.length_cons] at hn
    have hend : fieldEnd finish (close :: rest) = .ok ((), close :: rest) :=
      fieldEnd_eq_ok_iff.mpr (.inr ⟨close, rest, rfl, hclose, rfl⟩)
    have hnone : trailingComment (close :: rest) = (none, close :: rest) :=
      trailingComment_of_none (.close hclose rest)
    obtain ⟨n, rfl⟩ : ∃ m, n = m + 1 := Nat.exists_eq_add_one_of_ne_zero (by omega)
    rw [List.cons_append, members_field_complete ihType hfield (by omega)
      ⟨close, rest, rfl, .inr hclose⟩]
    simp only [hend, hnone, members_close hclose, bind, Except.bind]
    rfl
  | @field t semicolon inserted ts us name x literal more hfield hsemicolon hnone hmore =>
    simp only [List.length_cons, List.length_append] at hn
    have hend : fieldEnd finish (semicolon :: (us ++ close :: rest)) =
        .ok ((), us ++ close :: rest) :=
      fieldEnd_eq_ok_iff.mpr (.inl ⟨semicolon, inserted, rfl, hsemicolon⟩)
    have hread := ihMembers _ _ close rest hmore hclose (by omega)
    have hcomment : trailingComment (us ++ close :: rest) = (none, us ++ close :: rest) :=
      trailingComment_of_none (hnone.append_close hclose rest)
    simp only [List.cons_append, List.append_assoc]
    rw [members_field_complete ihType hfield (by omega) ⟨semicolon, _, rfl, .inl ⟨_, hsemicolon⟩⟩]
    simp only [hend, hcomment, hread, bind, Except.bind]
    rfl
  | @commented t semicolon u inserted text ts us name x literal more hfield hsemicolon hu hline
      hmore =>
    simp only [List.length_cons, List.length_append] at hn
    have hend : fieldEnd finish (semicolon :: u :: (us ++ close :: rest)) =
        .ok ((), u :: (us ++ close :: rest)) :=
      fieldEnd_eq_ok_iff.mpr (.inl ⟨semicolon, inserted, rfl, hsemicolon⟩)
    have hread := ihMembers _ _ close rest hmore hclose (by omega)
    have hcomment : trailingComment (u :: (us ++ close :: rest)) =
        (some text, us ++ close :: rest) := by
      simp [trailingComment, hu, hline]
    simp only [List.cons_append, List.append_assoc]
    rw [members_field_complete ihType hfield (by omega) ⟨semicolon, _, rfl, .inl ⟨_, hsemicolon⟩⟩]
    simp only [hend, hcomment, hread, bind, Except.bind]
    rfl

/-- Types and the members of structs are read, whatever comes after them. -/
theorem type_members_complete (finish : Place) (n : Nat) :
    CompleteType finish n ∧ CompleteMembers finish n := by
  induction n with
  | zero =>
    refine ⟨fun ts x rest h hn _ => ?_, fun ts ms close rest _ _ hn => ?_⟩
    · exact absurd (readsType_length_pos h) (by omega)
    · exact absurd hn (Nat.not_lt_zero _)
  | succ n ih => exact ⟨completeType_succ ih.1 ih.2, completeMembers_succ ih.1 ih.2⟩

theorem length_le_of_ends {ts us : List Token} (h : Ends ts us) : us.length ≤ ts.length := by
  cases h with
  | semicolon => exact Nat.le_succ _
  | finish => exact Nat.le_refl _

/-- The items of a file are read. -/
theorem items_complete {packaged : Bool} {ts : List Token} {its : List Item}
    (h : ReadsItems packaged ts its) (hn : ts.length ≤ n) :
    items finish n packaged ts = .ok its := by
  induction h generalizing n with
  | nil => cases n <;> rfl
  | comment ht _ ih =>
    obtain ⟨n, rfl⟩ := Nat.exists_eq_add_of_le' (Nat.le_trans (Nat.le_add_left 1 _) hn)
    rw [items_comment ht, ih (Nat.le_of_succ_le_succ hn)]
    rfl
  | @package t u name ts us more ht hu hname hend _ ih =>
    simp only [List.length_cons] at hn
    obtain ⟨n, rfl⟩ := Nat.exists_eq_add_of_le' (by omega : 1 ≤ n)
    have hread := ih (n := n) (by have := length_le_of_ends hend; omega)
    have hclause : Parse.name finish .package (u :: ts) = .ok (name, ts) :=
      name_cons .package hu (isWord_of_isPackageName hname).2 ts
    have hended : terminator finish ts = .ok ((), us) := terminator_eq_ok_iff.mpr hend
    rw [items_clause ht, hclause]
    simp only [hname, hended, hread, bind, Except.bind]
    rfl
  | @type t u name ts us vs x more ht hu hname htype hend _ ih =>
    simp only [List.length_cons, List.length_append] at hn
    obtain ⟨n, rfl⟩ := Nat.exists_eq_add_of_le' (by omega : 1 ≤ n)
    have hread := ih (n := n) (by have := length_le_of_ends hend; omega)
    have hnext : NoDot us := by
      cases hend with
      | semicolon hkind => exact noDot_cons hkind (by simp) _
      | finish => exact nofun
    have hexpr := (type_members_complete finish n).1 _ _ us htype (by omega) hnext
    have hended : terminator finish us = .ok ((), vs) := terminator_eq_ok_iff.mpr hend
    rw [items_type ht, name_cons .type hu hname]
    simp only [hexpr, hended, hread, bind, Except.bind]
    rfl

/-- The parser accepts the tokens that are read as items, and returns these. -/
theorem items_eq_ok_iff {packaged : Bool} {ts : List Token} {its : List Item}
    (hn : ts.length ≤ n) :
    items finish n packaged ts = .ok its ↔ ReadsItems packaged ts its :=
  ⟨items_sound, fun h => items_complete h hn⟩

end Parse

/-! ## Whole texts -/

/-- A text says a file exactly if its tokens are read as that file. -/
theorem readFile_eq_ok_iff {t : List Char} {its : List Item} :
    readFile t = .ok its ↔ ∃ r, scan t = .ok r ∧ ReadsItems false r.tokens its := by
  unfold readFile parse
  rw [bind_eq_ok_iff]
  simp only [Parse.items_eq_ok_iff (Nat.le_refl _)]

/-- A text is formatted as the layout of the file that it says. -/
theorem format_eq_ok_iff {source t : String} : format source = .ok t ↔
    ∃ its, readFile source.toList = .ok its ∧ t = String.ofList (fileText its) := by
  unfold format
  rw [bind_eq_ok_iff]
  refine exists_congr fun its => and_congr_right fun _ => ?_
  exact ⟨fun h => (Except.ok.inj h).symm, fun h => congrArg Except.ok h.symm⟩

end SchemaToGo.Go
