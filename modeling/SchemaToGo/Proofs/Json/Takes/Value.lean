import SchemaToGo.Proofs.Json.Takes.Literal
import SchemaToGo.Proofs.Result
import SchemaToGo.Json.Skip
import SchemaToGo.Json.Value
set_option autoImplicit false

/-!
# Values that readers take

What is taken for a value, read or passed over, is a text of some tree, with blanks before it.  What
is taken for the rest of an array or an object is the rest of one.
-/

namespace SchemaToGo.Json

open Reader

/-! ## Texts with blanks before them -/

section

variable {γ : Type} {Item : γ → List UInt8 → Prop} {closing : UInt8}

/-- Blanks, and after them the text of an item. -/
def Spaced (Item : γ → List UInt8 → Prop) (bs : List UInt8) : Prop :=
  ∃ blanks text a, Blanks blanks ∧ Item a text ∧ bs = blanks ++ text

/-- The rest of a list of items, after an item. -/
def HasTail (Item : γ → List UInt8 → Prop) (closing : UInt8) (bs : List UInt8) : Prop :=
  ∃ as, ListTail Item closing as bs

/-- The rest of a list of items, after the opening bracket. -/
def HasBody (Item : γ → List UInt8 → Prop) (closing : UInt8) (bs : List UInt8) : Prop :=
  ∃ as, ListBody Item closing as bs

theorem Blanks.append {bs bs' : List UInt8} (h : Blanks bs) (h' : Blanks bs') :
    Blanks (bs ++ bs') := List.forall_mem_append.mpr ⟨h, h'⟩

theorem Spaced.of_text {a : γ} {text : List UInt8} (h : Item a text) : Spaced Item text :=
  ⟨[], text, a, .nil, h, rfl⟩

theorem Spaced.blanks {blanks bs : List UInt8} (hblanks : Blanks blanks) (h : Spaced Item bs) :
    Spaced Item (blanks ++ bs) := by
  obtain ⟨blanks', text, a, hblanks', htext, rfl⟩ := h
  exact ⟨blanks ++ blanks', text, a, hblanks.append hblanks', htext,
    (List.append_assoc _ _ _).symm⟩

theorem HasTail.nil {blanks : List UInt8} (h : Blanks blanks) :
    HasTail Item closing (blanks ++ [closing]) := ⟨[], .nil h⟩

theorem HasTail.cons {blanks bs tail : List UInt8} (h : Blanks blanks) (hitem : Spaced Item bs)
    (htail : HasTail Item closing tail) :
    HasTail Item closing (blanks ++ Byte.comma :: (bs ++ tail)) := by
  obtain ⟨blanks', text, a, hblanks', htext, rfl⟩ := hitem
  obtain ⟨as, htail⟩ := htail
  rw [List.append_assoc]
  exact ⟨a :: as, .cons h hblanks' htext htail⟩

theorem HasBody.nil {blanks : List UInt8} (h : Blanks blanks) :
    HasBody Item closing (blanks ++ [closing]) := ⟨[], .nil h⟩

theorem HasBody.cons {bs tail : List UInt8} (hitem : Spaced Item bs)
    (htail : HasTail Item closing tail) : HasBody Item closing (bs ++ tail) := by
  obtain ⟨blanks, text, a, hblanks, htext, rfl⟩ := hitem
  obtain ⟨as, htail⟩ := htail
  rw [List.append_assoc]
  exact ⟨a :: as, .cons hblanks htext htail⟩

end

/-- Blanks and a colon. -/
def EndsKey (bs : List UInt8) : Prop := ∃ blanks, Blanks blanks ∧ bs = blanks ++ [Byte.colon]

/-- The rest of a member after its key. -/
def EndsMember (bs : List UInt8) : Prop :=
  ∃ key value, EndsKey key ∧ Spaced ValueText value ∧ bs = key ++ value

/-- A key and the rest of its member. -/
theorem spaced_member {key bs : List UInt8} (hkey : EndsString key) (h : EndsMember bs) :
    Spaced (MemberText ValueText) (Byte.quote :: (key ++ bs)) := by
  obtain ⟨chars, hchars, rfl⟩ := hkey
  obtain ⟨_, _, ⟨blanks, hblanks, rfl⟩, ⟨blanks', text, t, hblanks', htext, rfl⟩, rfl⟩ := h
  have hmember := MemberText.mk (.quoted hchars) hblanks hblanks' htext
  refine .of_text (Eq.mp (congrArg (MemberText ValueText _) ?_) hmember)
  simp only [quoted, List.cons_append, List.append_assoc, List.nil_append]

namespace Reader

variable {α : Type} {γ : Type} {Item : γ → List UInt8 → Prop}

/-! ## Arrays -/

section

variable {item : Reader α} (hitem : ∀ i bs, Takes item ⟨i, bs⟩ (Spaced Item))
include hitem

theorem moreElements_takes (n i : Nat) (bs : List UInt8) :
    Takes (moreElements item n) ⟨i, bs⟩ (HasTail Item Byte.closeBracket) := by
  induction n generalizing i bs with
  | zero => exact .failNext _
  | succ n ih =>
    unfold moreElements
    refine .token (fun _ _ _ => .failNext _) fun _ blanks x rest hblanks => ?_
    dsimp only
    by_cases hclose : x = Byte.closeBracket
    · rw [if_pos hclose, hclose]
      exact .eat (.pure _ (.nil hblanks))
    by_cases hcomma : x = Byte.comma
    · rw [if_neg hclose, if_pos hcomma, hcomma]
      refine .eat (.token (fun _ _ _ => .failNext _) fun _ blanks' y rest hblanks' => ?_)
      dsimp only
      split
      · exact .failNext _
      · refine (hitem _ _).bind fun first text _ _ htext => ?_
        refine ((ih _ _).mono fun tail htail => ?_).map _
        rw [← List.append_assoc blanks']
        exact .cons hblanks (htext.blanks hblanks') htail
    · rw [if_neg hclose, if_neg hcomma]
      exact .failNext _

theorem elements_takes (bound i : Nat) (bs : List UInt8) :
    Takes (elements bound item) ⟨i, bs⟩ (HasBody Item Byte.closeBracket) := by
  unfold elements
  refine .token (fun _ _ _ => .failNext _) fun _ blanks x rest hblanks => ?_
  dsimp only
  by_cases hclose : x = Byte.closeBracket
  · rw [if_pos hclose, hclose]
    exact .eat (.pure _ (.nil hblanks))
  · rw [if_neg hclose]
    refine (hitem _ _).bind fun first text _ _ htext => ?_
    refine ((moreElements_takes hitem _ _ _).mono fun tail htail => ?_).map _
    rw [← List.append_assoc]
    exact .cons (htext.blanks hblanks) htail

end

theorem listEnd_takes (i : Nat) (bs : List UInt8) :
    Takes listEnd ⟨i, bs⟩ (HasTail Item Byte.closeBracket) := by
  unfold listEnd
  refine .token (fun _ _ _ => .failNext _) fun _ blanks x rest hblanks => ?_
  dsimp only
  by_cases hclose : x = Byte.closeBracket
  · rw [if_pos hclose, hclose]
    exact .eat_last (.nil hblanks)
  rw [if_neg hclose]
  split
  · next hcomma =>
    rw [hcomma]
    refine .eat (.token (fun _ _ _ => .failNext _) fun _ _ y rest _ => ?_)
    split
    · exact .failNext _
    · exact .failNext _
  · exact .failNext _

section

variable {item : Reader Unit} (hitem : ∀ i bs, Takes item ⟨i, bs⟩ (Spaced Item))
include hitem

theorem skipMoreElements_takes (n i : Nat) (bs : List UInt8) :
    Takes (skipMoreElements item n) ⟨i, bs⟩ (HasTail Item Byte.closeBracket) := by
  induction n generalizing i bs with
  | zero => exact .failNext _
  | succ n ih =>
    unfold skipMoreElements
    refine .token (fun _ _ _ => .failNext _) fun _ blanks x rest hblanks => ?_
    dsimp only
    by_cases hclose : x = Byte.closeBracket
    · rw [if_pos hclose, hclose]
      exact .eat_last (.nil hblanks)
    by_cases hcomma : x = Byte.comma
    · rw [if_neg hclose, if_pos hcomma, hcomma]
      refine .eat ((hitem _ _).bind fun _ text _ _ htext => ?_)
      exact (ih _ _).mono fun tail htail => .cons hblanks htext htail
    · rw [if_neg hclose, if_neg hcomma]
      exact .failNext _

theorem skipElements_takes (bound i : Nat) (bs : List UInt8) :
    Takes (skipElements bound item) ⟨i, bs⟩ (HasBody Item Byte.closeBracket) := by
  unfold skipElements
  refine .token (fun _ _ _ => .failNext _) fun _ blanks x rest hblanks => ?_
  dsimp only
  by_cases hclose : x = Byte.closeBracket
  · rw [if_pos hclose, hclose]
    exact .eat_last (.nil hblanks)
  · rw [if_neg hclose]
    refine (hitem _ _).bind fun _ text _ _ htext => ?_
    refine (skipMoreElements_takes hitem _ _ _).mono fun tail htail => ?_
    rw [← List.append_assoc]
    exact .cons (htext.blanks hblanks) htail

end

/-! ## Objects -/

theorem colon_takes (i : Nat) (bs : List UInt8) : Takes colon ⟨i, bs⟩ EndsKey := by
  unfold colon
  refine .token (fun _ _ _ => .failNext _) fun _ blanks x rest hblanks => ?_
  dsimp only
  by_cases hcolon : x = Byte.colon
  · rw [if_pos hcolon, hcolon]
    exact .eat_last ⟨blanks, hblanks, rfl⟩
  · rw [if_neg hcolon]
    exact .failNext _

/-- A colon, and after it a value. -/
theorem Takes.member {item : Reader α} {i : Nat} {bs : List UInt8}
    (hitem : ∀ i bs, Takes item ⟨i, bs⟩ (Spaced ValueText)) :
    Takes (do colon; item) ⟨i, bs⟩ EndsMember :=
  (colon_takes i bs).bind fun _ key _ _ hkey =>
    (hitem _ _).mono fun value hvalue => ⟨key, value, hkey, hvalue, rfl⟩

section

variable {member : α → String → Reader α} {bound : Nat}
  (hmember : ∀ s key i bs, Takes (member s key) ⟨i, bs⟩ EndsMember)
include hmember

theorem moreMembers_takes (n : Nat) (s : α) (i : Nat) (bs : List UInt8) :
    Takes (moreMembers bound member n s) ⟨i, bs⟩
      (HasTail (MemberText ValueText) Byte.closeBrace) := by
  induction n generalizing s i bs with
  | zero => exact .failNext _
  | succ n ih =>
    unfold moreMembers
    refine .token (fun _ _ _ => .failNext _) fun _ blanks x rest hblanks => ?_
    dsimp only
    by_cases hclose : x = Byte.closeBrace
    · rw [if_pos hclose, hclose]
      exact .eat (.pure _ (.nil hblanks))
    by_cases hcomma : x = Byte.comma
    · rw [if_neg hclose, if_pos hcomma, hcomma]
      refine .eat (.token (fun _ _ _ => .failNext _) fun _ blanks' y rest hblanks' => ?_)
      dsimp only
      by_cases hquote : y = Byte.quote
      · rw [if_pos hquote, hquote]
        refine .eat ((stringRest_takes _ _ _).bind fun key text _ _ htext => ?_)
        refine (hmember s key _ _).bind fun s' more _ _ hmore => ?_
        refine (ih s' _ _).mono fun tail htail => ?_
        have hitem := (spaced_member htext hmore).blanks hblanks'
        have hcons := HasTail.cons hblanks hitem htail
        simpa only [List.append_assoc, List.cons_append] using hcons
      · rw [if_neg hquote]
        split
        · exact .failNext _
        · exact .failNext _
    · rw [if_neg hclose, if_neg hcomma]
      exact .failNext _

theorem members_takes (s : α) (i : Nat) (bs : List UInt8) :
    Takes (members bound member s) ⟨i, bs⟩ (HasBody (MemberText ValueText) Byte.closeBrace) := by
  unfold members
  refine .token (fun _ _ _ => .failNext _) fun _ blanks x rest hblanks => ?_
  dsimp only
  by_cases hclose : x = Byte.closeBrace
  · rw [if_pos hclose, hclose]
    exact .eat (.pure _ (.nil hblanks))
  by_cases hquote : x = Byte.quote
  · rw [if_neg hclose, if_pos hquote, hquote]
    refine .eat ((stringRest_takes _ _ _).bind fun key text _ _ htext => ?_)
    refine (hmember s key _ _).bind fun s' more _ _ hmore => ?_
    refine (moreMembers_takes hmember _ s' _ _).mono fun tail htail => ?_
    have hcons := HasBody.cons ((spaced_member htext hmore).blanks hblanks) htail
    simpa only [List.append_assoc, List.cons_append] using hcons
  · rw [if_neg hclose, if_neg hquote]
    exact .failNext _

end

section

variable {item : Reader Unit} {bound : Nat}
  (hitem : ∀ i bs, Takes item ⟨i, bs⟩ (Spaced ValueText))
include hitem

theorem skipMember_takes (i : Nat) (bs : List UInt8) :
    Takes (skipMember bound item) ⟨i, bs⟩ (Spaced (MemberText ValueText)) := by
  unfold skipMember
  refine .token (fun _ _ _ => .failNext _) fun _ blanks x rest hblanks => ?_
  dsimp only
  by_cases hquote : x = Byte.quote
  · rw [if_pos hquote, hquote]
    refine .eat ((skipStringRest_takes _ _ _).bind fun _ key _ _ hkey => ?_)
    exact (Takes.member hitem).mono fun more hmore => (spaced_member hkey hmore).blanks hblanks
  · rw [if_neg hquote]
    exact .failNext _

theorem skipMoreMembers_takes (n i : Nat) (bs : List UInt8) :
    Takes (skipMoreMembers bound item n) ⟨i, bs⟩
      (HasTail (MemberText ValueText) Byte.closeBrace) := by
  induction n generalizing i bs with
  | zero => exact .failNext _
  | succ n ih =>
    unfold skipMoreMembers
    refine .token (fun _ _ _ => .failNext _) fun _ blanks x rest hblanks => ?_
    dsimp only
    by_cases hclose : x = Byte.closeBrace
    · rw [if_pos hclose, hclose]
      exact .eat_last (.nil hblanks)
    by_cases hcomma : x = Byte.comma
    · rw [if_neg hclose, if_pos hcomma, hcomma]
      refine .eat ((skipMember_takes hitem _ _).bind fun _ text _ _ htext => ?_)
      exact (ih _ _).mono fun tail htail => .cons hblanks htext htail
    · rw [if_neg hclose, if_neg hcomma]
      exact .failNext _

theorem skipMembers_takes (i : Nat) (bs : List UInt8) :
    Takes (skipMembers bound item) ⟨i, bs⟩
      (HasBody (MemberText ValueText) Byte.closeBrace) := by
  unfold skipMembers
  refine .token (fun _ _ _ => .failNext _) fun _ blanks x rest hblanks => ?_
  dsimp only
  by_cases hclose : x = Byte.closeBrace
  · rw [if_pos hclose, hclose]
    exact .eat_last (.nil hblanks)
  · rw [if_neg hclose]
    refine (skipMember_takes hitem _ _).bind fun _ text _ _ htext => ?_
    refine (skipMoreMembers_takes hitem _ _ _).mono fun tail htail => ?_
    rw [← List.append_assoc]
    exact .cons (htext.blanks hblanks) htail

end

/-! ## Values -/

theorem spaced_array {blanks bs : List UInt8} (hblanks : Blanks blanks)
    (h : HasBody ValueText Byte.closeBracket bs) :
    Spaced ValueText (blanks ++ Byte.openBracket :: bs) := by
  obtain ⟨ts, hts⟩ := h
  exact .blanks hblanks (.of_text (.array hts))

theorem spaced_object {blanks bs : List UInt8} (hblanks : Blanks blanks)
    (h : HasBody (MemberText ValueText) Byte.closeBrace bs) :
    Spaced ValueText (blanks ++ Byte.openBrace :: bs) := by
  obtain ⟨ms, hms⟩ := h
  exact .blanks hblanks (.of_text (.object hms))

theorem spaced_string {blanks bs : List UInt8} (hblanks : Blanks blanks) (h : EndsString bs) :
    Spaced ValueText (blanks ++ Byte.quote :: bs) := by
  obtain ⟨chars, hchars, rfl⟩ := h
  exact .blanks hblanks (.of_text (.string (.quoted hchars)))

theorem spaced_number {blanks bs : List UInt8} (hblanks : Blanks blanks) (h : NumberLiteral bs) :
    Spaced ValueText (blanks ++ bs) := .blanks hblanks (.of_text (.number h))

/-- A name that is read after its first letter. -/
theorem Takes.name {t : Tree} {name blanks : List UInt8} {x : UInt8}
    (htext : ValueText t (x :: name)) (hblanks : Blanks blanks) (i : Nat) (bs : List UInt8) :
    Takes (Reader.nameRest name) ⟨i, bs⟩ fun more => Spaced ValueText (blanks ++ x :: more) :=
  (Takes.nameRest name i bs).mono fun _ hmore => .blanks hblanks (.of_text (hmore ▸ htext))

theorem skipValue_takes (bound depth i : Nat) (bs : List UInt8) :
    Takes (skipValue bound depth) ⟨i, bs⟩ (Spaced ValueText) := by
  induction depth generalizing i bs with
  | zero => exact .takeWhile Byte.isBlank fun _ _ _ _ => .failNext _
  | succ depth ih =>
    unfold skipValue
    refine .token (fun _ _ _ => .failNext _) fun _ blanks x rest hblanks => ?_
    dsimp only
    split
    · next hx => exact hx ▸ .eat (.name .nullName hblanks _ _)
    split
    · next hx => exact hx ▸ .eat (.name .trueName hblanks _ _)
    split
    · next hx => exact hx ▸ .eat (.name .falseName hblanks _ _)
    split
    · exact (skipNumber_takes _ _).mono fun _ => spaced_number hblanks
    split
    · next hx => exact hx ▸ .eat ((skipStringRest_takes _ _ _).mono fun _ => spaced_string hblanks)
    split
    · next hx => exact hx ▸ .eat ((skipElements_takes ih _ _ _).mono fun _ => spaced_array hblanks)
    split
    · next hx => exact hx ▸ .eat ((skipMembers_takes ih _ _).mono fun _ => spaced_object hblanks)
    · exact .failNext _

theorem valueWith_takes {inner : Option (Reader Value)} (bound : Nat)
    (hinner : ∀ item ∈ inner, ∀ i bs, Takes item ⟨i, bs⟩ (Spaced ValueText)) (i : Nat)
    (bs : List UInt8) : Takes (valueWith bound inner) ⟨i, bs⟩ (Spaced ValueText) := by
  unfold valueWith
  refine .token (fun _ _ _ => .failNext _) fun _ blanks x rest hblanks => ?_
  dsimp only
  split
  · next hx => exact hx ▸ .eat ((Takes.name .nullName hblanks _ _).map _)
  split
  · next hx => exact hx ▸ .eat ((Takes.name .trueName hblanks _ _).map _)
  split
  · next hx => exact hx ▸ .eat ((Takes.name .falseName hblanks _ _).map _)
  split
  · exact ((number_takes _ _).mono fun _ => spaced_number hblanks).map _
  split
  · next hx =>
    exact hx ▸ .eat (((stringRest_takes _ _ _).mono fun _ => spaced_string hblanks).map _)
  split
  · next hx =>
    cases inner with
    | none => exact .failNext _
    | some item =>
      have hitem := hinner item rfl
      exact hx ▸ .eat (((elements_takes hitem _ _ _).mono fun _ => spaced_array hblanks).map _)
  split
  · next hx =>
    cases inner with
    | none => exact .failNext _
    | some item =>
      have hmember : ∀ (ms : List (String × Value)) (key : String) i bs, Takes (do
          colon
          return ms ++ [(key, ← item)]) ⟨i, bs⟩ EndsMember := fun ms key i bs =>
        .member fun i bs => (hinner item rfl i bs).map _
      exact hx ▸ .eat (((members_takes hmember _ _ _).mono fun _ => spaced_object hblanks).map _)
  · exact .failNext _

theorem value_takes (bound room i : Nat) (bs : List UInt8) :
    Takes (value bound room) ⟨i, bs⟩ (Spaced ValueText) := by
  induction room generalizing i bs with
  | zero => exact @valueWith_takes none bound (fun _ hitem => nomatch hitem) i bs
  | succ room ih =>
    exact valueWith_takes bound (fun item hitem => Option.some.inj hitem ▸ ih) i bs

/-! ## Values of one kind -/

/-- Nothing is taken for a value of a kind that is refused. -/
theorem refuseKind_takes (bound : Nat) (wanted : Wanted) (P : List UInt8 → Prop) (i : Nat)
    (bs : List UInt8) : Takes (refuseKind bound wanted : Reader α) ⟨i, bs⟩ P := by
  have hrefuse : ∀ (found : Found) (c : Cursor) (Q : List UInt8 → Prop),
      Takes (pure found >>= fun found c => .error ⟨.misfit (.wrongKind found wanted), c.index⟩ :
        Reader α) c Q := fun _ c _ => Nat.le_add_right c.index c.rest.length
  unfold refuseKind
  refine .peek (.failNext _) fun b rest _ => ?_
  dsimp only
  split
  · exact .eat ((Takes.nameRest _ _ _).bind fun _ _ _ _ _ => hrefuse _ _ _)
  split
  · exact .eat ((Takes.nameRest _ _ _).bind fun _ _ _ _ _ => hrefuse _ _ _)
  split
  · exact .eat ((Takes.nameRest _ _ _).bind fun _ _ _ _ _ => hrefuse _ _ _)
  split
  · exact (number_takes _ _).bind fun _ _ _ _ _ => hrefuse _ _ _
  split
  · exact .eat ((stringRest_takes _ _ _).bind fun _ _ _ _ _ => hrefuse _ _ _)
  split
  · exact hrefuse _ _ _
  split
  · exact hrefuse _ _ _
  · exact .failNext _

theorem nullable_takes {item : Reader α}
    (hitem : ∀ i bs, Takes item ⟨i, bs⟩ (Spaced ValueText)) (i : Nat) (bs : List UInt8) :
    Takes (nullable item) ⟨i, bs⟩ (Spaced ValueText) := by
  have hsome : ∀ i bs blanks, Blanks blanks → Takes (do return some (← item)) ⟨i, bs⟩
      fun more => Spaced ValueText (blanks ++ more) := fun i bs blanks hblanks =>
    ((hitem i bs).mono fun _ => .blanks hblanks).map some
  unfold nullable
  refine .token (fun i blanks hblanks => ?_) fun i blanks x rest hblanks => ?_
  · rw [if_neg nofun]
    exact hsome _ _ blanks hblanks
  · split
    · next hx =>
      cases hx
      exact .eat ((Takes.name .nullName hblanks _ _).map _)
    · exact hsome _ _ blanks hblanks

theorem text_takes (bound i : Nat) (bs : List UInt8) :
    Takes (text bound) ⟨i, bs⟩ (Spaced ValueText) := by
  unfold text
  refine .token (fun _ _ _ => .failNext _) fun _ blanks x rest hblanks => ?_
  dsimp only
  split
  · next hx => exact hx ▸ .eat ((stringRest_takes _ _ _).mono fun _ => spaced_string hblanks)
  · exact refuseKind_takes _ _ _ _ _

theorem list_takes {item : Option (Reader α)} (bound : Nat)
    (hitem : ∀ r ∈ item, ∀ i bs, Takes r ⟨i, bs⟩ (Spaced ValueText)) (i : Nat) (bs : List UInt8) :
    Takes (list bound item) ⟨i, bs⟩ (Spaced ValueText) := by
  unfold list
  refine .token (fun _ _ _ => .failNext _) fun _ blanks x rest hblanks => ?_
  dsimp only
  split
  · next hx =>
    cases item with
    | none => exact .failNext _
    | some item =>
      have hitem := hitem item rfl
      exact hx ▸ .eat ((elements_takes hitem _ _ _).mono fun _ => spaced_array hblanks)
  · exact refuseKind_takes _ _ _ _ _

end Reader

/-- A text that is read to its end is a JSON text. -/
theorem isText_of_value {bs : List UInt8} (room : Nat)
    (h : (value bs.length room (Cursor.start bs)).toOption.map (fun r => r.2.rest) = some []) :
    ∃ t, IsText t bs := by
  obtain ⟨⟨v, c⟩, hread, hend⟩ := Option.map_eq_some_iff.mp h
  obtain ⟨taken, hrest, -, blanks, text, t, hblanks, htext, rfl⟩ :=
    (value_takes _ room 0 bs).of_ok (toOption_eq_some hread)
  have hbs : bs = blanks ++ (text ++ []) := by
    rw [← List.append_assoc]
    exact hrest.trans (congrArg _ hend)
  exact ⟨t, hbs ▸ .mk hblanks htext .nil⟩

end SchemaToGo.Json
