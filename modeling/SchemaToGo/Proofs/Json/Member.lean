import SchemaToGo.Proofs.Json.Colons
set_option autoImplicit false

/-!
# Members of a text

Where the members of objects stand in a JSON text, from the outside in: a value is all there is
between blanks, or it stands in an array, or after a key and a colon in an object.  The colon of a
member says the name of the member.
-/

namespace SchemaToGo.Json

/-- A member of an object, with its place in a text. -/
structure Member where
  /-- the text before the key -/
  front : List UInt8
  /-- what stands between the quotes of the key -/
  letters : List UInt8
  /-- the blanks before the colon -/
  gap : List UInt8
  /-- the blanks after the colon -/
  gap' : List UInt8
  value : List UInt8

namespace Member

/-- The name, if the key can be decoded. -/
def name? (m : Member) : Option String := decodeLiteral? (quoted m.letters)

/-- The text before the colon. -/
def upToColon (m : Member) : List UInt8 := m.front ++ (quoted m.letters ++ m.gap)

/-- The text before the value. -/
def upToValue (m : Member) : List UInt8 := m.upToColon ++ Byte.colon :: m.gap'

/-- The byte at the offset is one of the value. -/
def Contains (m : Member) (offset : Nat) : Prop :=
  m.upToValue.length ≤ offset ∧ offset < m.upToValue.length + m.value.length

end Member

/-- What may stand before an item in brackets, from the opening one on. -/
inductive ListFront {α : Type} (Item : α → List UInt8 → Prop) : List UInt8 → Prop
  | first {blanks : List UInt8} (h : Blanks blanks) : ListFront Item blanks
  | next {front bs blanks blanks' : List UInt8} {a : α} (hfront : ListFront Item front)
      (hitem : Item a bs) (h : Blanks blanks) (h' : Blanks blanks') :
      ListFront Item (front ++ (bs ++ (blanks ++ Byte.comma :: blanks')))

/-- A value stands in a JSON text, between the text before it and the text after it; if it is that of
a member, the member is given. -/
inductive Occurs : Option Member → List UInt8 → List UInt8 → List UInt8 → Prop
  | root {before value after : List UInt8} {t : Tree} (hbefore : Blanks before)
      (hvalue : ValueText t value) (hafter : Blanks after) : Occurs none before value after
  | element {o : Option Member} {before front value tail after : List UInt8} {t : Tree}
      {ts : List Tree}
      (hlist : Occurs o before (Byte.openBracket :: (front ++ (value ++ tail))) after)
      (hfront : ListFront ValueText front) (hvalue : ValueText t value)
      (htail : ListTail ValueText Byte.closeBracket ts tail) :
      Occurs none (before ++ Byte.openBracket :: front) value (tail ++ after)
  | member {o : Option Member} {m : Member} {before front tail after : List UInt8} {t : Tree}
      {es : List (Option String × Tree)}
      (hobject : Occurs o before (Byte.openBrace :: (front ++ (quoted m.letters ++
        (m.gap ++ Byte.colon :: (m.gap' ++ (m.value ++ tail)))))) after)
      (hfront : ListFront (MemberText ValueText) front) (hletters : Characters m.letters)
      (hgap : Blanks m.gap) (hgap' : Blanks m.gap') (hvalue : ValueText t m.value)
      (htail : ListTail (MemberText ValueText) Byte.closeBrace es tail)
      (hm : m.front = before ++ Byte.openBrace :: front) :
      Occurs (some m) m.upToValue m.value (tail ++ after)

namespace Member

/-- The member is one of the text. -/
def In (m : Member) (doc : List UInt8) : Prop :=
  ∃ after, Occurs (some m) m.upToValue m.value after ∧ doc = m.upToValue ++ (m.value ++ after)

/-- Of the members with a value that contains the byte at the offset the one that starts last. -/
structure Innermost (m : Member) (doc : List UInt8) (offset : Nat) : Prop where
  mem : m.In doc
  contains : m.Contains offset
  last (m' : Member) : m'.In doc → m'.Contains offset → m'.upToValue.length ≤ m.upToValue.length

end Member

/-! ## Between strings -/

theorem ListFront.outside {α : Type} {Item : α → List UInt8 → Prop} {front : List UInt8}
    (hitem : ∀ a bs, Item a bs → Outside bs) (h : ListFront Item front) : Outside front := by
  induction h with
  | first h => exact (Tidy.blanks h).outside
  | next _ hbs hblanks hblanks' ih =>
    have hcomma : Tidy [Byte.comma] := .of_all (by decide)
    have hgap := (Tidy.blanks hblanks).append (hcomma.append (.blanks hblanks'))
    exact ih.append ((hitem _ _ hbs).append hgap.outside)

theorem MemberText.outside {e : Option String × Tree} {bs : List UInt8}
    (h : MemberText ValueText e bs) : Outside bs := by
  obtain ⟨⟨hletters⟩, hblanks, hblanks', hvalue⟩ := h
  exact (Tidy.member hletters hblanks ((Tidy.blanks hblanks').append hvalue.tidy)).outside

/-- Items in brackets stand outside of strings if the brackets do. -/
theorem Outside.append_front {α : Type} {Item : α → List UInt8 → Prop} {before front : List UInt8}
    {opening : UInt8} (h : Outside before) (hopening : Bare opening)
    (hfront : ListFront Item front) (hitem : ∀ a bs, Item a bs → Outside bs) :
    Outside (before ++ opening :: front) := by
  rw [List.append_cons]
  exact (h.bare hopening).append (hfront.outside hitem)

/-- Values stand outside of strings. -/
theorem Occurs.outside {o : Option Member} {before value after : List UInt8}
    (h : Occurs o before value after) : Outside before := by
  induction h with
  | root hbefore _ _ => exact (Tidy.blanks hbefore).outside
  | element _ hfront _ _ ih =>
    exact ih.append_front (by decide) hfront fun _ _ ht => ht.tidy.outside
  | @member _ m _ _ _ _ _ _ _ hfront hletters hgap hgap' _ _ hm ih =>
    have hkey : m.upToValue = m.front ++ (quoted m.letters ++ (m.gap ++ Byte.colon :: m.gap')) := by
      simp only [Member.upToValue, Member.upToColon, List.append_assoc]
    rw [hkey, hm]
    exact (ih.append_front (by decide) hfront fun _ _ he => he.outside).append
      (Tidy.member hletters hgap (.blanks hgap')).outside

/-- Keys stand outside of strings. -/
theorem Occurs.key {m : Member} {before value after : List UInt8}
    (h : Occurs (some m) before value after) :
    Outside m.front ∧ Characters m.letters ∧ Blanks m.gap := by
  cases h with
  | member hobject hfront hletters hgap _ _ _ hm =>
    rw [hm]
    exact ⟨hobject.outside.append_front (by decide) hfront fun _ _ he => he.outside,
      hletters, hgap⟩

/-- The colon of a member says its name. -/
theorem Member.In.colonSays {m : Member} {doc : List UInt8} (h : m.In doc) {name : String}
    (hname : m.name? = some name) : Says m.upToColon name := by
  obtain ⟨after, hoccurs, -⟩ := h
  obtain ⟨hfront, hletters, hgap⟩ := hoccurs.key
  exact .key hfront hletters hgap rfl hname

end SchemaToGo.Json
