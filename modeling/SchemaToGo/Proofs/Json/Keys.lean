import SchemaToGo.Proofs.Json.Member
import SchemaToGo.Proofs.Json.Takes.Value
set_option autoImplicit false

/-!
# Keys and other texts before colons

A colon of a JSON text ends the key of a member, or it stands in a string, but never both, since a
place is either in a string or not.  So what is found before a place is the name of a member whose
colon stands before it, or what stands between two strings of which the second one starts with a
colon: `keyBefore?_names_iff`.  The names of the members of a text can be listed, and so can the
texts between strings: `saidAt`.
-/

namespace SchemaToGo.Json

open Reader

/-! ## In strings and outside -/

/-- Where in a text a place is. -/
inductive Zone where
  | outside
  | inside
  /-- in a string, after a backslash that escapes the next byte -/
  | escaped
  deriving DecidableEq

/-- Where the place after a byte is. -/
def Zone.after : Zone → UInt8 → Zone
  | outside, b => if b = Byte.quote then inside else outside
  | inside, b =>
    if b = Byte.quote then outside else if b = Byte.backslash then escaped else inside
  | escaped, _ => inside

/-- Where the place after the bytes of a text is. -/
def zone (bs : List UInt8) : Zone := bs.foldl Zone.after .outside

theorem Zone.inside_after {b : UInt8} (hquote : b ≠ Byte.quote) (hslash : b ≠ Byte.backslash) :
    inside.after b = inside := (if_neg hquote).trans (if_neg hslash)

theorem IsHex.ne_backslash {b : UInt8} (h : IsHex b) : b ≠ Byte.backslash := by
  rintro rfl
  exact absurd h (by decide +kernel : ¬ (Byte.hexValue? Byte.backslash).isSome = true)

/-- What stands between quotes does not end the string. -/
theorem Characters.zone_eq {letters : List UInt8} (h : Characters letters) :
    letters.foldl Zone.after .inside = .inside := by
  have hhex : ∀ {x : UInt8}, IsHex x → Zone.inside.after x = .inside := fun hx =>
    Zone.inside_after hx.ne_quote hx.ne_backslash
  induction h with
  | nil => rfl
  | @plain b _ hb _ ih =>
    have hquote : b ≠ Byte.quote := by rintro rfl; exact absurd hb (by decide)
    have hslash : b ≠ Byte.backslash := by rintro rfl; exact absurd hb (by decide)
    rw [List.foldl_cons, Zone.inside_after hquote hslash]
    exact ih
  | short _ _ ih => exact ih
  | hex ha hb hc hd _ ih =>
    simp only [List.foldl_cons]
    rw [show (Zone.inside.after Byte.backslash).after (Byte.ofChar 'u') = .inside from rfl,
      hhex ha, hhex hb, hhex hc, hhex hd]
    exact ih

theorem Outside.zone_eq {bs : List UInt8} (h : Outside bs) : zone bs = .outside := by
  induction h with
  | nil => rfl
  | bare _ hb ih =>
    unfold zone at ih ⊢
    rw [List.foldl_append, ih]
    exact if_neg hb.1
  | string _ hletters ih =>
    unfold zone at ih ⊢
    rw [List.foldl_append, ih, quoted, List.foldl_cons, List.foldl_append]
    show [Byte.quote].foldl Zone.after (_) = _
    rw [show Zone.outside.after Byte.quote = .inside from rfl, hletters.zone_eq]
    rfl

/-- After the opening quote of a string and some of its characters. -/
theorem zone_open {front letters : List UInt8} (hfront : Outside front)
    (hletters : Characters letters) : zone (front ++ Byte.quote :: letters) = .inside := by
  have hbefore := hfront.zone_eq
  unfold zone at hbefore ⊢
  rw [List.foldl_append, hbefore]
  exact hletters.zone_eq

/-! ## Items -/

theorem split_colon {xs ys mid rest : List UInt8} (hxs : Byte.colon ∉ xs)
    (h : xs ++ ys = mid ++ Byte.colon :: rest) :
    ∃ mid', mid = xs ++ mid' ∧ ys = mid' ++ Byte.colon :: rest := by
  rcases append_colon_cases h with ⟨mid', rfl⟩ | hmid
  · exact absurd (List.mem_append_right _ List.mem_cons_self) hxs
  · exact hmid

theorem not_mem_colon {bs : List UInt8} (h : ∀ b ∈ bs, Bare b ∧ b ≠ Byte.colon) :
    Byte.colon ∉ bs := fun hmem => (h _ hmem).2 rfl

/-- An item stands among those in brackets, after the opening one, between `front` and `tail`. -/
structure ItemAt {α : Type} (Item : α → List UInt8 → Prop) (closing : UInt8)
    (bs front item tail : List UInt8) : Prop where
  split : bs = front ++ (item ++ tail)
  front : ListFront Item front
  item : ∃ a, Item a item
  tail : HasTail Item closing tail

section

variable {α : Type} {Item : α → List UInt8 → Prop} {closing : UInt8}
  (hclosing : closing ≠ Byte.colon)
include hclosing

/-- No colon stands before the closing bracket. -/
theorem Blanks.ne_colon {blanks mid rest : List UInt8} (h : Blanks blanks) :
    blanks ++ [closing] ≠ mid ++ Byte.colon :: rest := by
  intro heq
  obtain ⟨mid', -, hmid⟩ := split_colon (not_mem_colon h.bare) heq
  rcases List.singleton_eq_append_iff.mp hmid with ⟨-, hcolon⟩ | ⟨-, hnil⟩
  · exact hclosing (List.cons.inj hcolon).1.symm
  · cases hnil

/-- A colon behind `front` stands in one of the items there. -/
theorem ListTail.exists_item {a : α} {as : List α} {front bs tail mid rest : List UInt8}
    (htail : ListTail Item closing as tail) (hfront : ListFront Item front) (hitem : Item a bs)
    (h : bs ++ tail = mid ++ Byte.colon :: rest) :
    ∃ front' item tail' mid' rest', ItemAt Item closing (front ++ (bs ++ tail)) front' item tail' ∧
      item = mid' ++ Byte.colon :: rest' ∧ front ++ mid = front' ++ mid' := by
  induction htail generalizing front a bs mid with
  | nil hblanks =>
    rcases append_colon_cases h with ⟨rest', hbs⟩ | ⟨mid', -, hmid⟩
    · exact ⟨front, bs, _, mid, rest', ⟨rfl, hfront, ⟨a, hitem⟩, .nil hblanks⟩, hbs, rfl⟩
    · exact absurd hmid (hblanks.ne_colon hclosing)
  | @cons blanks blanks' bs' tail a' as hblanks hblanks' hitem' htail ih =>
    rcases append_colon_cases h with ⟨rest', hbs⟩ | ⟨mid', rfl, hmid⟩
    · exact ⟨front, bs, _, mid, rest',
        ⟨rfl, hfront, ⟨a, hitem⟩, a' :: as, .cons hblanks hblanks' hitem' htail⟩, hbs, rfl⟩
    · have hgap : Byte.colon ∉ blanks ++ Byte.comma :: blanks' := by
        rw [List.mem_append, List.mem_cons]
        rintro (hmem | heq | hmem)
        · exact not_mem_colon hblanks.bare hmem
        · exact absurd heq (by decide)
        · exact not_mem_colon hblanks'.bare hmem
      have hgapped : (blanks ++ Byte.comma :: blanks') ++ (bs' ++ tail) =
          mid' ++ Byte.colon :: rest := by
        rw [← hmid, List.append_assoc, List.cons_append]
      obtain ⟨mid, rfl, hrest⟩ := split_colon hgap hgapped
      obtain ⟨front', item, tail', mid', rest', hat, hitem, hmid⟩ :=
        ih (.next hfront hitem hblanks hblanks') hitem' hrest
      refine ⟨front', item, tail', mid', rest', ?_, hitem, ?_⟩
      · simpa only [List.append_assoc, List.cons_append] using hat
      · simpa only [List.append_assoc, List.cons_append] using hmid

theorem ListBody.exists_item {as : List α} {bs mid rest : List UInt8}
    (h : ListBody Item closing as bs) (hbs : bs = mid ++ Byte.colon :: rest) :
    ∃ front item tail mid' rest', ItemAt Item closing bs front item tail ∧
      item = mid' ++ Byte.colon :: rest' ∧ mid = front ++ mid' := by
  cases h with
  | nil hblanks => exact absurd hbs (hblanks.ne_colon hclosing)
  | cons hblanks hitem htail =>
    obtain ⟨mid, rfl, hmid⟩ := split_colon (not_mem_colon hblanks.bare) hbs
    exact htail.exists_item hclosing (.first hblanks) hitem hmid

end

/-! ## Colons of a text -/

/-- A colon after the bytes `before` of a text ends the key of a member, or it stands in a string. -/
inductive ColonOf (doc before : List UInt8) : Prop
  | key {m : Member} (hm : m.In doc) (hbefore : before = m.upToColon)
  | inside {front letters : List UInt8} (hfront : Outside front) (hletters : Characters letters)
      (hbefore : before = front ++ Byte.quote :: letters)

theorem Occurs.valueText {o : Option Member} {before value after : List UInt8}
    (h : Occurs o before value after) : ∃ t, ValueText t value := by
  cases h with
  | root _ hvalue _ => exact ⟨_, hvalue⟩
  | element _ _ hvalue _ => exact ⟨_, hvalue⟩
  | member _ _ _ _ _ hvalue _ _ => exact ⟨_, hvalue⟩

/-- A colon of a member stands in its key, after the key, or in the value. -/
theorem Occurs.colonOf_member {m : Member} {doc after mid rest : List UInt8}
    (hm : Occurs (some m) m.upToValue m.value after)
    (hdoc : doc = m.upToValue ++ (m.value ++ after)) (hgap' : Blanks m.gap')
    (hcolon : quoted m.letters ++ (m.gap ++ Byte.colon :: (m.gap' ++ m.value)) =
      mid ++ Byte.colon :: rest)
    (hvalue : ∀ mid', m.value = mid' ++ Byte.colon :: rest → ColonOf doc (m.upToValue ++ mid')) :
    ColonOf doc (m.front ++ mid) := by
  obtain ⟨hfront, hletters, hgap⟩ := hm.key
  rcases append_colon_cases hcolon with ⟨_, hkey⟩ | ⟨mid, rfl, hbehindKey⟩
  · obtain ⟨inner, hinner, rfl⟩ := hletters.exists_open hkey
    exact .inside hfront hinner rfl
  obtain ⟨mid, rfl, hbehindGap⟩ := split_colon (not_mem_colon hgap.bare) hbehindKey
  cases mid with
  | nil =>
    rw [List.append_nil]
    exact .key ⟨after, hm, hdoc⟩ rfl
  | cons x mid =>
    obtain ⟨rfl, hbehindColon⟩ := List.cons.inj hbehindGap
    obtain ⟨mid, rfl, hinValue⟩ := split_colon (not_mem_colon hgap'.bare) hbehindColon
    have hinner := hvalue mid hinValue
    rwa [Member.upToValue, Member.upToColon, List.append_assoc, List.append_assoc,
      List.append_assoc, List.cons_append] at hinner

/-- Every colon in a value of the text is one of the two.  By induction on the length of the value,
since values stand inside each other. -/
theorem Occurs.colonOf {o : Option Member} {before value after mid rest : List UInt8}
    (h : Occurs o before value after) (hvalue : value = mid ++ Byte.colon :: rest) :
    ColonOf (before ++ (value ++ after)) (before ++ mid) := by
  generalize hn : value.length = n
  induction n using Nat.strongRecOn generalizing o before value after mid rest with
  | ind n ih =>
    have hcolon : Byte.colon ∈ value := hvalue ▸ List.mem_append_right _ List.mem_cons_self
    obtain ⟨t, htext⟩ := h.valueText
    cases htext with
    | nullName => exact absurd hcolon (by decide)
    | trueName => exact absurd hcolon (by decide)
    | falseName => exact absurd hcolon (by decide)
    | number hnumber => exact absurd hcolon (not_mem_colon hnumber.bare)
    | string hstring =>
      obtain ⟨hletters⟩ := hstring
      obtain ⟨inner, hinner, rfl⟩ := hletters.exists_open hvalue
      exact .inside h.outside hinner rfl
    | @array ts bs hbody =>
      obtain ⟨mid, rfl, hbs⟩ := @split_colon [Byte.openBracket] _ _ _ (by decide) hvalue
      obtain ⟨front, item, tail, mid, rest, ⟨rfl, hfront, ⟨a, ha⟩, ⟨as, htail⟩⟩, hitem, rfl⟩ :=
        hbody.exists_item (by decide) hbs
      have hlength : item.length < n := by
        rw [← hn, List.length_cons, List.length_append, List.length_append]
        omega
      have hinner := ih item.length hlength (.element h hfront ha htail) hitem rfl
      simpa only [List.append_assoc, List.cons_append, List.nil_append] using hinner
    | @object es bs hbody =>
      obtain ⟨mid, rfl, hbs⟩ := @split_colon [Byte.openBrace] _ _ _ (by decide) hvalue
      obtain ⟨front, item, tail, mid, rest, ⟨rfl, hfront, ⟨a, ha⟩, ⟨as, htail⟩⟩, hitem, rfl⟩ :=
        hbody.exists_item (by decide) hbs
      obtain @⟨_, gap, gap', value, t, @⟨letters, hletters⟩, hgap, hgap', htext⟩ := ha
      let m : Member := ⟨before ++ Byte.openBrace :: front, letters, gap, gap', value⟩
      have hm : Occurs (some m) m.upToValue m.value (tail ++ after) :=
        .member (by simpa only [List.append_assoc, List.cons_append] using h) hfront hletters hgap
          hgap' htext htail rfl
      have hlength : value.length < n := by
        rw [← hn]
        simp only [List.length_cons, List.length_append]
        omega
      have hinner := hm.colonOf_member rfl hgap' hitem fun mid hinValue =>
        ih value.length hlength hm hinValue rfl
      simpa only [m, Member.upToValue, Member.upToColon, List.append_assoc, List.cons_append,
        List.nil_append] using hinner

/-- Every colon of a JSON text ends the key of a member or stands in a string. -/
theorem IsText.colonOf {t : Tree} {doc before after : List UInt8} (h : IsText t doc)
    (hdoc : doc = before ++ Byte.colon :: after) : ColonOf doc before := by
  obtain ⟨hblanks, htext, hblanks'⟩ := h
  obtain ⟨mid, rfl, hmid⟩ := split_colon (not_mem_colon hblanks.bare) hdoc
  rcases append_colon_cases hmid with ⟨rest, hvalue⟩ | ⟨mid', -, hbehind⟩
  · exact (Occurs.root hblanks htext hblanks').colonOf hvalue
  · refine absurd ?_ (not_mem_colon hblanks'.bare)
    rw [hbehind]
    exact List.mem_append_right _ List.mem_cons_self

namespace Member.In

variable {m : Member} {doc : List UInt8} (h : m.In doc)
include h

theorem outside : Outside m.upToColon := by
  obtain ⟨after, hoccurs, -⟩ := h
  obtain ⟨hfront, hletters, hgap⟩ := hoccurs.key
  exact hfront.append ((Tidy.string hletters).append (.blanks hgap)).outside

theorem exists_behind : ∃ after, doc = m.upToColon ++ Byte.colon :: after := by
  obtain ⟨after, -, hdoc⟩ := h
  rw [Member.upToValue, List.append_assoc, List.cons_append] at hdoc
  exact ⟨_, hdoc⟩

theorem keyAt?_eq : keyAt? m.upToColon = m.name? := by
  obtain ⟨after, hoccurs, -⟩ := h
  obtain ⟨hfront, hletters, hgap⟩ := hoccurs.key
  rw [Member.upToColon, ← List.append_assoc]
  exact keyAt?_quoted hfront.getLast?_ne hletters.quotesEscaped
    fun b hb => isAsciiBlank_of_isBlank (hgap b hb)

end Member.In

/-! ## What a colon says -/

/-- The bytes end in the opening quote of a string, with spaces after it, if anything, and `v` is
what stands between this string and the one before it, taken for a string itself. -/
def Between (before : List UInt8) (v : String) : Prop :=
  ∃ front letters gap spaces, Outside front ∧ Characters letters ∧
    letters.getLast? ≠ some Byte.backslash ∧ (∀ b ∈ gap, Bare b) ∧ (∀ b ∈ spaces, b = 0x20) ∧
    before = front ++ (quoted letters ++ (gap ++ Byte.quote :: spaces)) ∧
    decodeLiteral? (quoted gap) = some v

theorem Between.says {before : List UInt8} {v : String} (h : Between before v) :
    Says before v := by
  obtain ⟨front, letters, gap, spaces, hfront, hletters, hlast, hgap, hspaces, hbefore, hv⟩ := h
  exact .opening hfront hletters hlast hgap hspaces hbefore hv

theorem Between.zone_eq {before : List UInt8} {v : String} (h : Between before v) :
    zone before = .inside := by
  obtain ⟨front, letters, gap, spaces, hfront, hletters, -, hgap, hspaces, rfl, -⟩ := h
  have hopen : Outside (front ++ (quoted letters ++ gap)) := by
    rw [← List.append_assoc]
    exact (hfront.string hletters).append (.of_bare hgap)
  have hcharacters : Characters spaces := .of_plain fun b hb => by
    rw [hspaces b hb]
    rfl
  rw [← List.append_assoc, ← List.append_assoc, List.append_assoc front]
  exact zone_open hopen hcharacters

/-- A colon of the text after these bytes says `v`: it ends the key of a member with this name, or
`v` stands between two strings, and the colon at the start of the second one. -/
def SaysIn (doc before : List UInt8) (v : String) : Prop :=
  (∃ m : Member, m.In doc ∧ m.upToColon = before ∧ m.name? = some v) ∨ Between before v

theorem IsText.says_iff {t : Tree} {doc before after : List UInt8} {v : String} (h : IsText t doc)
    (hdoc : doc = before ++ Byte.colon :: after) : Says before v ↔ SaysIn doc before v := by
  constructor
  · intro hsays
    cases hsays with
    | @key front letters blanks hfront hletters hblanks hbefore hv =>
      left
      have hsaid := (Says.key hfront hletters hblanks hbefore hv).keyAt?
      cases h.colonOf hdoc with
      | key hm hkey => exact ⟨_, hm, hkey.symm, by rw [← hm.keyAt?_eq, ← hkey, hsaid]⟩
      | inside hfront' hletters' hopen =>
        -- no place is after a key and in a string
        have houtside : Outside before := by
          rw [hbefore]
          exact hfront.append ((Tidy.string hletters).append (.blanks hblanks)).outside
        have hzone := zone_open hfront' hletters'
        rw [← hopen, houtside.zone_eq] at hzone
        cases hzone
    | opening hfront hletters hlast hgap hspaces hbefore hv =>
      exact .inr ⟨_, _, _, _, hfront, hletters, hlast, hgap, hspaces, hbefore, hv⟩
  · rintro (⟨m, hm, rfl, hname⟩ | hbetween)
    · exact hm.colonSays hname
    · exact hbetween.says

theorem IsText.keyAt?_iff {t : Tree} {doc before after : List UInt8} {v : String}
    (h : IsText t doc) (hdoc : doc = before ++ Byte.colon :: after) :
    keyAt? before = some v ↔ SaysIn doc before v := by
  rw [← h.says_iff hdoc]
  exact ⟨says_of_keyAt? (h.tidy.placed before after hdoc), Says.keyAt?⟩

/-! ## What is said where -/

/-- What the colons in strings, or outside of them, say. -/
def saidAt (z : Zone) (doc : List UInt8) : List String :=
  (List.range doc.length).filterMap fun i =>
    if doc[i]? = some Byte.colon ∧ zone (doc.take i) = z then keyAt? (doc.take i) else none

theorem mem_saidAt_iff {z : Zone} {doc : List UInt8} {v : String} :
    v ∈ saidAt z doc ↔
      ∃ before after, doc = before ++ Byte.colon :: after ∧ zone before = z ∧
        keyAt? before = some v := by
  simp only [saidAt, List.mem_filterMap, List.mem_range, Option.ite_none_right_eq_some]
  constructor
  · rintro ⟨i, hi, ⟨hcolon, hzone⟩, hsaid⟩
    refine ⟨doc.take i, doc.drop (i + 1), ?_, hzone, hsaid⟩
    obtain ⟨_, hbyte⟩ := List.getElem?_eq_some_iff.mp hcolon
    rw [← hbyte, ← List.drop_eq_getElem_cons hi, List.take_append_drop]
  · rintro ⟨before, after, rfl, hzone, hsaid⟩
    refine ⟨before.length, ?_, ⟨?_, ?_⟩, ?_⟩
    · rw [List.length_append, List.length_cons]
      omega
    · rw [List.getElem?_append_right (Nat.le_refl _), Nat.sub_self]
      rfl
    · rwa [List.take_left]
    · rwa [List.take_left]

section

variable {t : Tree} {doc : List UInt8} {v : String} (h : IsText t doc)
include h

/-- Outside of strings the names of the members are said. -/
theorem IsText.mem_saidAt_outside_iff :
    v ∈ saidAt .outside doc ↔ ∃ m : Member, m.In doc ∧ m.name? = some v := by
  rw [mem_saidAt_iff]
  constructor
  · rintro ⟨before, after, hdoc, hzone, hsaid⟩
    obtain ⟨m, hm, -, hname⟩ | hbetween := (h.keyAt?_iff hdoc).mp hsaid
    · exact ⟨m, hm, hname⟩
    · exact absurd (hzone.symm.trans hbetween.zone_eq) nofun
  · rintro ⟨m, hm, hname⟩
    obtain ⟨after, hdoc⟩ := hm.exists_behind
    exact ⟨m.upToColon, after, hdoc, hm.outside.zone_eq, hm.keyAt?_eq.trans hname⟩

/-- In strings, what stands between two strings is said where the second one starts. -/
theorem IsText.mem_saidAt_inside_iff :
    v ∈ saidAt .inside doc ↔
      ∃ before after, doc = before ++ Byte.colon :: after ∧ Between before v := by
  rw [mem_saidAt_iff]
  refine exists_congr fun before => exists_congr fun after => and_congr_right fun hdoc => ?_
  constructor
  · rintro ⟨hzone, hsaid⟩
    obtain ⟨m, hm, rfl, -⟩ | hbetween := (h.keyAt?_iff hdoc).mp hsaid
    · exact absurd (hm.outside.zone_eq.symm.trans hzone) nofun
    · exact hbetween
  · exact fun hbetween => ⟨hbetween.zone_eq, hbetween.says.keyAt?⟩

end

/-! ## The key before a place -/

/-- A member of the text has the name and its colon before the place. -/
def NamedBefore (doc : List UInt8) (offset : Nat) (k : String) : Prop :=
  ∃ m : Member, m.In doc ∧ m.name? = some k ∧ m.upToColon.length < offset

/-- Of the colons before the place that say anything the last one stands at the start of a string,
and `k` between this string and the one before it. -/
def BetweenBefore (doc : List UInt8) (offset : Nat) (k : String) : Prop :=
  ∃ front back, doc.take offset = front ++ Byte.colon :: back ∧ Between front k ∧
    ∀ front' back' w, back = front' ++ Byte.colon :: back' →
      ¬ SaysIn doc (front ++ Byte.colon :: front') w

theorem BetweenBefore.mem_saidAt {t : Tree} {doc : List UInt8} {offset : Nat} {k : String}
    (h : BetweenBefore doc offset k) (htext : IsText t doc) : k ∈ saidAt .inside doc := by
  obtain ⟨front, back, hsplit, hbetween, -⟩ := h
  exact htext.mem_saidAt_inside_iff.mpr ⟨front, _, eq_append_of_take hsplit, hbetween⟩

/-- In a JSON text, what is found before a place is what is said last by the colons before it, by
that of a member or by one at the start of a string.  It is always the name of a member with its
colon before the place exactly if it is where a string starts with the colon. -/
theorem keyBefore?_names_iff {t : Tree} {doc : List UInt8} (h : IsText t doc) (offset : Nat) :
    (∀ k, keyBefore? doc offset = some k ↔ LastColon (SaysIn doc) (doc.take offset) k) ∧
    ((∀ k, keyBefore? doc offset = some k → NamedBefore doc offset k) ↔
      ∀ k, BetweenBefore doc offset k → NamedBefore doc offset k) := by
  have hsaid : ∀ k, keyBefore? doc offset = some k ↔
      LastColon (SaysIn doc) (doc.take offset) k := by
    intro k
    rw [keyBefore?_eq_some_iff h]
    exact lastColon_congr fun front back w hfront => h.says_iff (eq_append_of_take hfront)
  refine ⟨hsaid, fun hnamed k hbetween => ?_, fun hbetween k hk => ?_⟩
  · obtain ⟨front, back, hsplit, hsays, hlast⟩ := hbetween
    exact hnamed k ((hsaid k).mpr ⟨front, back, hsplit, .inr hsays, hlast⟩)
  · obtain ⟨front, back, hsplit, ⟨m, hm, rfl, hname⟩ | hsays, hlast⟩ := (hsaid k).mp hk
    · refine ⟨m, hm, hname, ?_⟩
      have hlength := congrArg List.length hsplit
      rw [List.length_take, List.length_append, List.length_cons] at hlength
      omega
    · exact hbetween k ⟨front, back, hsplit, hsays, hlast⟩

/-- A text with a colon in a string, though not at its start. -/
def colonWithin : List UInt8 := Utf8.encode "\x7b\"a\": [\"b\", \"c: d\", 5]\x7d"

/-- What is found behind the colon in the string is the name before it. -/
theorem keyBefore?_names_iff_colonWithin :
    keyBefore? colonWithin 20 = some "a" ∧ ∀ offset k, keyBefore? colonWithin offset = some k →
      NamedBefore colonWithin offset k := by
  obtain ⟨t, htext⟩ : ∃ t, IsText t colonWithin := isText_of_value 2 (by decide +kernel)
  refine ⟨by decide +kernel, fun offset => ?_⟩
  refine (keyBefore?_names_iff htext offset).2.mpr fun k hbetween => ?_
  have hinside : saidAt .inside colonWithin = [] := by decide +kernel
  exact absurd (hbetween.mem_saidAt htext) (hinside ▸ List.not_mem_nil)

/-- A text with a colon at the start of a string that is not the first one of its array. -/
def colonAtStart : List UInt8 := Utf8.encode "\x7b\"required\": [\"a\", \":b\", 5]\x7d"

/-- What is found behind the string is what stands before it, and no name of a member. -/
theorem keyBefore?_colonAtStart :
    (∃ t, IsText t colonAtStart) ∧ keyBefore? colonAtStart 25 = some ", " ∧
      ∀ m : Member, m.In colonAtStart → m.name? ≠ some ", " := by
  obtain ⟨t, htext⟩ : ∃ t, IsText t colonAtStart := isText_of_value 2 (by decide +kernel)
  refine ⟨⟨t, htext⟩, by decide +kernel, fun m hm hname => ?_⟩
  have hnames : saidAt .outside colonAtStart = ["required"] := by decide +kernel
  exact absurd (htext.mem_saidAt_outside_iff.mpr ⟨m, hm, hname⟩) (by rw [hnames]; decide)

end SchemaToGo.Json
