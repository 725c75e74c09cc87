import SchemaToGo.Proofs.Json.LiteralBack
import Mathlib.Data.List.Basic
set_option autoImplicit false

/-!
# What colons say

The key of a place is looked for from colon to colon.  A colon says the text that seems to be quoted
before it.  In a JSON text this is the key that the colon ends; but a colon at the start of a string
says what stands between this string and the one before it, if that could be a string, too.  No
other colon says anything: `keyBefore?_eq_some_iff`.
-/

namespace SchemaToGo.Json

open Reader

/-! ## Outside of strings -/

/-- A byte that neither opens a string nor escapes anything. -/
def Bare (b : UInt8) : Prop := b ≠ Byte.quote ∧ b ≠ Byte.backslash

instance (b : UInt8) : Decidable (Bare b) :=
  inferInstanceAs (Decidable (b ≠ Byte.quote ∧ b ≠ Byte.backslash))

/-- The beginning of a text, up to a place that is in no string. -/
inductive Outside : List UInt8 → Prop
  | nil : Outside []
  | bare {bs : List UInt8} {b : UInt8} (h : Outside bs) (hb : Bare b) : Outside (bs ++ [b])
  | string {bs letters : List UInt8} (h : Outside bs) (hletters : Characters letters) :
      Outside (bs ++ quoted letters)

theorem getLast?_append_quoted (bs letters : List UInt8) :
    (bs ++ quoted letters).getLast? = some Byte.quote := by
  unfold quoted
  rw [← List.cons_append, ← List.append_assoc, List.getLast?_concat]

namespace Outside

theorem of_bare {bs : List UInt8} (h : ∀ b ∈ bs, Bare b) : Outside bs := by
  induction bs using List.reverseRecOn with
  | nil => exact .nil
  | append_singleton bs b ih =>
    exact .bare (ih fun x hx => h x (List.mem_append_left _ hx))
      (h b (List.mem_append_right _ List.mem_cons_self))

theorem append {bs more : List UInt8} (h : Outside bs) (hmore : Outside more) :
    Outside (bs ++ more) := by
  induction hmore with
  | nil => rwa [List.append_nil]
  | bare _ hb ih =>
    rw [← List.append_assoc]
    exact ih.bare hb
  | string _ hletters ih =>
    rw [← List.append_assoc]
    exact ih.string hletters

/-- Outside of strings nothing is escaped. -/
theorem getLast?_ne {bs : List UInt8} (h : Outside bs) : bs.getLast? ≠ some Byte.backslash := by
  cases h with
  | nil => exact nofun
  | bare _ hb =>
    rw [List.getLast?_concat]
    exact fun heq => hb.2 (Option.some.inj heq)
  | string _ _ =>
    rw [getLast?_append_quoted]
    decide

/-- There is no string yet, or a last one. -/
theorem exists_last {bs : List UInt8} (h : Outside bs) :
    (∀ b ∈ bs, Bare b) ∨ ∃ front letters gap, bs = front ++ (quoted letters ++ gap) ∧
      Outside front ∧ Characters letters ∧ ∀ b ∈ gap, Bare b := by
  have hconcat : ∀ {gap : List UInt8} {b : UInt8}, (∀ x ∈ gap, Bare x) → Bare b →
      ∀ x ∈ gap ++ [b], Bare x := fun hgap hb =>
    List.forall_mem_append.mpr ⟨hgap, List.forall_mem_singleton.mpr hb⟩
  induction h with
  | nil => exact .inl nofun
  | bare _ hb ih =>
    rcases ih with hbare | ⟨front, letters, gap, rfl, hfront, hletters, hgap⟩
    · exact .inl (hconcat hbare hb)
    · refine .inr ⟨front, letters, gap ++ [_], ?_, hfront, hletters, hconcat hgap hb⟩
      simp only [List.append_assoc]
  | @string bs letters h hletters _ =>
    exact .inr ⟨bs, letters, [], by rw [List.append_nil], h, hletters, nofun⟩

end Outside

/-! ## Colons -/

/-- The key that a colon after these bytes is taken to end. -/
def keyAt? (before : List UInt8) : Option String :=
  quotedBack? (before.reverse.dropWhile isAsciiBlank)

/-- A colon after these bytes says a text: it ends a key, or it stands at the start of a string, and
the text is what stands between this string and the one before it. -/
inductive Says (before : List UInt8) (v : String) : Prop
  | key {front letters blanks : List UInt8} (hfront : Outside front)
      (hletters : Characters letters) (hblanks : Blanks blanks)
      (hbefore : before = front ++ (quoted letters ++ blanks))
      (hv : decodeLiteral? (quoted letters) = some v)
  | opening {front letters gap spaces : List UInt8} (hfront : Outside front)
      (hletters : Characters letters) (hlast : letters.getLast? ≠ some Byte.backslash)
      (hgap : ∀ b ∈ gap, Bare b) (hspaces : ∀ b ∈ spaces, b = 0x20)
      (hbefore : before = front ++ (quoted letters ++ (gap ++ Byte.quote :: spaces)))
      (hv : decodeLiteral? (quoted gap) = some v)

theorem isAsciiBlank_of_isBlank {b : UInt8} (h : Byte.isBlank b = true) : isAsciiBlank b = true := by
  simp only [Byte.isBlank, Bool.or_eq_true, beq_iff_eq] at h
  simp only [isAsciiBlank, Bool.or_eq_true, beq_iff_eq]
  tauto

/-- Blanks before a colon are passed over. -/
theorem keyAt?_append {bs blanks : List UInt8} (hblanks : ∀ b ∈ blanks, isAsciiBlank b = true)
    (hbs : ∀ b ∈ bs.getLast?, isAsciiBlank b = false) :
    keyAt? (bs ++ blanks) = quotedBack? bs.reverse := by
  unfold keyAt?
  rw [List.reverse_append,
    List.dropWhile_append_of_pos fun b hb => hblanks b (List.mem_reverse.mp hb)]
  rcases List.eq_nil_or_concat' bs with rfl | ⟨bs, b, rfl⟩
  · rfl
  · have hb := hbs b List.getLast?_concat
    rw [List.reverse_append, List.reverse_singleton, List.singleton_append,
      List.dropWhile_cons_of_neg (by rw [hb]; exact Bool.false_ne_true)]

theorem keyAt?_quoted {front blanks : List UInt8} (hfront : front.getLast? ≠ some Byte.backslash)
    {letters : List UInt8} (hletters : QuotesEscaped letters)
    (hblanks : ∀ b ∈ blanks, isAsciiBlank b = true) :
    keyAt? (front ++ quoted letters ++ blanks) = decodeLiteral? (quoted letters) := by
  rw [keyAt?_append hblanks fun b hb => ?_, quotedBack?_quoted hfront hletters]
  rw [getLast?_append_quoted] at hb
  obtain rfl := Option.some.inj hb
  rfl

/-- From the end of one string to the start of the next, as if it was a string itself. -/
theorem append_gap (front letters gap more : List UInt8) :
    front ++ (quoted letters ++ (gap ++ Byte.quote :: more)) =
      front ++ Byte.quote :: letters ++ quoted gap ++ more := by
  simp [quoted]

theorem getLast?_append_cons_ne {front letters : List UInt8}
    (hlast : letters.getLast? ≠ some Byte.backslash) :
    (front ++ Byte.quote :: letters).getLast? ≠ some Byte.backslash := by
  rw [List.getLast?_append, List.getLast?_cons]
  cases hletters : letters.getLast? with
  | none => exact fun heq => absurd (Option.some.inj heq) (by decide)
  | some b =>
    rw [hletters] at hlast
    exact hlast

/-- What a colon says is found. -/
theorem Says.keyAt? {before : List UInt8} {v : String} (h : Says before v) :
    keyAt? before = some v := by
  cases h with
  | key hfront hletters hblanks hbefore hv =>
    rw [hbefore, ← List.append_assoc, keyAt?_quoted hfront.getLast?_ne hletters.quotesEscaped
      fun b hb => isAsciiBlank_of_isBlank (hblanks b hb)]
    exact hv
  | @opening front letters gap spaces _ _ hlast hgap hspaces hbefore hv =>
    have hquotes : QuotesEscaped gap :=
      .of_not_mem fun hmem => (hgap _ hmem).1 rfl
    have hblanks : ∀ b ∈ spaces, isAsciiBlank b = true := fun b hb => by
      rw [hspaces b hb]
      rfl
    rw [hbefore, append_gap, keyAt?_quoted (getLast?_append_cons_ne hlast) hquotes hblanks]
    exact hv

/-! ## Places of colons -/

/-- A colon may stand after these bytes: after a key, or within a string. -/
inductive Placed : List UInt8 → Prop
  | key {front letters blanks : List UInt8} (hfront : Outside front)
      (hletters : Characters letters) (hblanks : Blanks blanks) :
      Placed (front ++ (quoted letters ++ blanks))
  | inside {front letters : List UInt8} (hfront : Outside front)
      (hletters : Characters letters) : Placed (front ++ Byte.quote :: letters)

theorem Placed.append_left {bs before : List UInt8} (hbs : Outside bs) (h : Placed before) :
    Placed (bs ++ before) := by
  cases h with
  | key hfront hletters hblanks =>
    rw [← List.append_assoc]
    exact .key (hbs.append hfront) hletters hblanks
  | inside hfront hletters =>
    rw [← List.append_assoc]
    exact .inside (hbs.append hfront) hletters

/-- The blanks at the end. -/
theorem exists_blanks (bs : List UInt8) : ∃ core blanks, bs = core ++ blanks ∧
    (∀ b ∈ blanks, isAsciiBlank b = true) ∧ ∀ b ∈ core.getLast?, isAsciiBlank b = false := by
  induction bs using List.reverseRecOn with
  | nil => exact ⟨[], [], rfl, nofun, nofun⟩
  | append_singleton bs b ih =>
    cases hb : isAsciiBlank b with
    | true =>
      obtain ⟨core, blanks, rfl, hblanks, hcore⟩ := ih
      refine ⟨core, blanks ++ [b], List.append_assoc _ _ _, ?_, hcore⟩
      exact List.forall_mem_append.mpr ⟨hblanks, List.forall_mem_singleton.mpr hb⟩
    | false =>
      refine ⟨bs ++ [b], [], (List.append_nil _).symm, nofun, fun x hx => ?_⟩
      rw [List.getLast?_concat] at hx
      rwa [← Option.some.inj hx]

theorem isAsciiBlank_cases {b : UInt8} (h : isAsciiBlank b = true) :
    b = 0x20 ∨ b = 0x09 ∨ b = 0x0A ∨ b = 0x0C ∨ b = 0x0D := by
  simp only [isAsciiBlank, Bool.or_eq_true, beq_iff_eq] at h
  tauto

/-- Blanks at the end of a literal are spaces, and can be left off. -/
theorem Characters.of_append_blanks {core blanks : List UInt8} (h : Characters (core ++ blanks))
    (hblanks : ∀ b ∈ blanks, isAsciiBlank b = true) :
    Characters core ∧ ∀ b ∈ blanks, b = 0x20 := by
  have hcore : Characters core := by
    cases blanks with
    | nil => rwa [List.append_nil] at h
    | cons b blanks =>
      rcases isAsciiBlank_cases (hblanks b List.mem_cons_self) with rfl | rfl | rfl | rfl | rfl
      all_goals exact h.of_append_cons (by decide) (by decide) (by decide) (by decide)
  have hrest := hcore.of_append_right h
  clear h
  refine ⟨hcore, ?_⟩
  induction blanks with
  | nil => exact nofun
  | cons b blanks ih =>
    have hb := isAsciiBlank_cases (hblanks b List.mem_cons_self)
    cases hrest with
    | plain hplain hrest =>
      refine List.forall_mem_cons.mpr
        ⟨?_, ih (fun x hx => hblanks x (List.mem_cons_of_mem b hx)) hrest⟩
      rcases hb with rfl | rfl | rfl | rfl | rfl
      · rfl
      all_goals exact absurd hplain (by decide)
    | short | hex => exact absurd hb (by decide)

/-- A colon that opens a string may say what stands before the string. -/
theorem says_of_opening {front spaces : List UInt8} {v : String} (hfront : Outside front)
    (hspaces : ∀ b ∈ spaces, b = 0x20) (h : quotedBack? (front ++ [Byte.quote]).reverse = some v) :
    Says (front ++ Byte.quote :: spaces) v := by
  rcases hfront.exists_last with hbare | ⟨front, letters, gap, rfl, hfront, hletters, hgap⟩
  · have hnone : literalBack? front.reverse [Byte.quote] = none :=
      literalBack?_of_not_mem (fun hmem => (hbare _ (List.mem_reverse.mp hmem)).1 rfl) _
    rw [List.reverse_append, List.reverse_singleton, List.singleton_append, quotedBack?,
      if_pos rfl, hnone] at h
    cases h
  have hquote : Byte.quote ∉ gap := fun hmem => (hgap _ hmem).1 rfl
  by_cases hlast : letters.getLast? = some Byte.backslash
  · -- the closing quote of the string before seems to be escaped
    have hquoted : front ++ (quoted letters ++ gap) ++ [Byte.quote] =
        front ++ quoted (letters ++ Byte.quote :: gap) := by
      simp [quoted]
    have hescaped := hletters.quotesEscaped.append_quote hlast hquote
    have hmore : quoted (letters ++ Byte.quote :: gap) = quoted letters ++ (gap ++ [Byte.quote]) := by
      simp [quoted]
    rw [hquoted, quotedBack?_quoted hfront.getLast?_ne hescaped, hmore] at h
    cases gap with
    | nil =>
      rw [List.nil_append, decodeLiteral?_quoted_append hletters] at h
      cases h
    | cons b gap =>
      rw [List.cons_append, decodeLiteral?_quoted_append hletters] at h
      cases h
  · have hquoted : front ++ (quoted letters ++ gap) ++ [Byte.quote] =
        front ++ Byte.quote :: letters ++ quoted gap := by
      simp [quoted]
    rw [hquoted, quotedBack?_quoted (getLast?_append_cons_ne hlast) (.of_not_mem hquote)] at h
    refine .opening hfront hletters hlast hgap hspaces ?_ h
    simp only [List.append_assoc]

/-- Only what `Says` allows is found. -/
theorem says_of_keyAt? {before : List UInt8} {v : String} (hplaced : Placed before)
    (h : keyAt? before = some v) : Says before v := by
  cases hplaced with
  | key hfront hletters hblanks =>
    refine .key hfront hletters hblanks rfl ?_
    rwa [← List.append_assoc, keyAt?_quoted hfront.getLast?_ne hletters.quotesEscaped
      fun b hb => isAsciiBlank_of_isBlank (hblanks b hb)] at h
  | @inside front letters hfront hletters =>
    obtain ⟨core, blanks, rfl, hblanks, hcore⟩ := exists_blanks letters
    obtain ⟨hcharacters, hspaces⟩ := hletters.of_append_blanks hblanks
    rcases List.eq_nil_or_concat' core with rfl | ⟨core, b, rfl⟩
    · have hquote : ∀ b ∈ (front ++ [Byte.quote]).getLast?, isAsciiBlank b = false := by
        rw [List.getLast?_concat]
        rintro b ⟨⟩
        rfl
      rw [List.nil_append, List.append_cons, keyAt?_append hblanks hquote] at h
      exact says_of_opening hfront hspaces h
    · -- an escaped quote: from there back to the opening one no literal is found
      have hbefore : front ++ Byte.quote :: (core ++ [b] ++ blanks) =
          (front ++ Byte.quote :: core ++ [b]) ++ blanks := by
        simp
      have hlast : ∀ x ∈ (front ++ Byte.quote :: core ++ [b]).getLast?, isAsciiBlank x = false := by
        rw [List.getLast?_concat]
        rintro x ⟨⟩
        exact hcore b List.getLast?_concat
      rw [hbefore, keyAt?_append hblanks hlast] at h
      by_cases hb : b = Byte.quote
      · subst hb
        have hquoted : front ++ Byte.quote :: core ++ [Byte.quote] = front ++ quoted core := by
          simp [quoted]
        rw [hquoted, quotedBack?_quoted hfront.getLast?_ne hcharacters.quotesEscaped.of_concat] at h
        cases h.symm.trans (decodeLiteral?_open hcharacters)
      · rw [List.reverse_append, List.reverse_singleton, List.singleton_append, quotedBack?,
          if_neg hb] at h
        cases h

/-! ## Bytes of other tokens -/

/-- A test that quotes, backslashes and colons fail. -/
theorem bare_of_test {p : UInt8 → Bool}
    (hp : [Byte.quote, Byte.backslash, Byte.colon].any p = false) {bs : List UInt8}
    (h : ∀ b ∈ bs, p b = true) : ∀ b ∈ bs, Bare b ∧ b ≠ Byte.colon := by
  intro b hb
  have hne : ∀ x ∈ [Byte.quote, Byte.backslash, Byte.colon], b ≠ x := by
    rintro x hx rfl
    exact List.any_eq_false.mp hp b hx (h b hb)
  exact ⟨⟨hne _ (by decide), hne _ (by decide)⟩, hne _ (by decide)⟩

theorem Blanks.bare {bs : List UInt8} (h : Blanks bs) : ∀ b ∈ bs, Bare b ∧ b ≠ Byte.colon :=
  bare_of_test (by decide) h

theorem Digits.bare {bs : List UInt8} (h : Digits bs) : ∀ b ∈ bs, Bare b ∧ b ≠ Byte.colon :=
  bare_of_test (by decide) h

theorem bare_of_all {bs : List UInt8} (h : bs.all fun b => Bare b ∧ b ≠ Byte.colon) :
    ∀ b ∈ bs, Bare b ∧ b ≠ Byte.colon :=
  fun b hb => of_decide_eq_true (List.all_eq_true.mp h b hb)

theorem NumberLiteral.bare {bs : List UInt8} (h : NumberLiteral bs) :
    ∀ b ∈ bs, Bare b ∧ b ≠ Byte.colon := by
  obtain ⟨hsign, hwhole, hfraction, hexponent⟩ := h
  have hsigns : ∀ sign ∈ [[], [Byte.plus], [Byte.minus]],
      sign.all fun b => Bare b ∧ b ≠ Byte.colon := by decide
  simp only [List.forall_mem_append]
  refine ⟨bare_of_all (hsigns _ ?_), ?_, ?_, ?_⟩
  · rcases List.mem_cons.mp hsign with rfl | hsign
    · exact List.mem_cons_self
    · exact List.mem_cons_of_mem _ (List.mem_cons_of_mem _ hsign)
  · cases hwhole with
    | zero => exact bare_of_all (by decide)
    | digits hd _ hds => exact Digits.bare (.cons hd hds)
  · cases hfraction with
    | absent => exact nofun
    | digits h => exact List.forall_mem_cons.mpr ⟨by decide, h.bare⟩
  · cases hexponent with
    | absent => exact nofun
    | digits hmark hsign h =>
      have hbyte := bare_of_test (p := Reader.isExponentMark) (by decide)
        (List.forall_mem_singleton.mpr hmark) _ List.mem_cons_self
      exact List.forall_mem_cons.mpr
        ⟨hbyte, List.forall_mem_append.mpr ⟨bare_of_all (hsigns _ hsign), h.bare⟩⟩

/-! ## Texts -/

/-- No string is open at the end, and every colon ends a key or stands in a string. -/
structure Tidy (bs : List UInt8) : Prop where
  outside : Outside bs
  placed : ∀ before after, bs = before ++ Byte.colon :: after → Placed before

theorem append_colon_cases {bs more before after : List UInt8}
    (h : bs ++ more = before ++ Byte.colon :: after) :
    (∃ mid, bs = before ++ Byte.colon :: mid) ∨
      ∃ mid, before = bs ++ mid ∧ more = mid ++ Byte.colon :: after := by
  rcases List.append_eq_append_iff.mp h with ⟨mid, hbefore, hmore⟩ | ⟨mid, hbs, hmore⟩
  · exact .inr ⟨mid, hbefore, hmore⟩
  · cases mid with
    | nil =>
      rw [List.append_nil] at hbs
      exact .inr ⟨[], by rw [hbs, List.append_nil], hmore.symm⟩
    | cons x mid =>
      obtain ⟨rfl, -⟩ := List.cons.inj hmore
      exact .inl ⟨mid, hbs⟩

/-- The string is still open at a colon in it. -/
theorem Characters.exists_open {letters before after : List UInt8} (h : Characters letters)
    (hcolon : quoted letters = before ++ Byte.colon :: after) :
    ∃ inner, Characters inner ∧ before = Byte.quote :: inner := by
  cases before with
  | nil => exact absurd (List.cons.inj hcolon).1 (by decide)
  | cons x before =>
    obtain ⟨rfl, hletters⟩ := List.cons.inj hcolon
    rcases append_colon_cases hletters with ⟨mid, rfl⟩ | ⟨mid, -, hquote⟩
    · exact ⟨before, h.of_append_cons (by decide) (by decide) (by decide) (by decide), rfl⟩
    · rcases List.singleton_eq_append_iff.mp hquote with ⟨-, hcolon⟩ | ⟨-, hnil⟩
      · exact absurd (List.cons.inj hcolon).1 (by decide)
      · cases hnil

namespace Tidy

variable {bs more : List UInt8}

theorem append (h : Tidy bs) (hmore : Tidy more) : Tidy (bs ++ more) := by
  refine ⟨h.outside.append hmore.outside, fun before after hbefore => ?_⟩
  rcases append_colon_cases hbefore with ⟨mid, hbs⟩ | ⟨mid, rfl, hmid⟩
  · exact h.placed before mid hbs
  · exact (hmore.placed mid after hmid).append_left h.outside

theorem of_bare (h : ∀ b ∈ bs, Bare b ∧ b ≠ Byte.colon) : Tidy bs := by
  refine ⟨.of_bare fun b hb => (h b hb).1, ?_⟩
  rintro before after rfl
  exact absurd rfl (h Byte.colon (List.mem_append_right _ List.mem_cons_self)).2

theorem cons {b : UInt8} (hb : Bare b ∧ b ≠ Byte.colon) (h : Tidy bs) : Tidy (b :: bs) :=
  (of_bare (List.forall_mem_singleton.mpr hb)).append h

theorem string {letters : List UInt8} (h : Characters letters) : Tidy (quoted letters) := by
  refine ⟨Outside.nil.string h, fun before after hbefore => ?_⟩
  obtain ⟨inner, hinner, rfl⟩ := h.exists_open hbefore
  exact @Placed.inside [] _ .nil hinner

theorem of_all (h : bs.all fun b => Bare b ∧ b ≠ Byte.colon) : Tidy bs :=
  of_bare (bare_of_all h)

theorem blanks (h : Blanks bs) : Tidy bs := of_bare h.bare

/-- A colon ends a key. -/
theorem member {letters blanks : List UInt8} (hletters : Characters letters)
    (hblanks : Blanks blanks) (hmore : Tidy more) :
    Tidy (quoted letters ++ (blanks ++ Byte.colon :: more)) := by
  have hkey : Tidy (quoted letters ++ blanks) := (string hletters).append (.blanks hblanks)
  have hcolon : Outside (quoted letters ++ blanks ++ [Byte.colon]) :=
    hkey.outside.bare ⟨by decide, by decide⟩
  rw [← List.append_assoc]
  refine ⟨?_, fun before after hbefore => ?_⟩
  · rw [List.append_cons]
    exact hcolon.append hmore.outside
  rcases append_colon_cases hbefore with ⟨mid, hbs⟩ | ⟨mid, rfl, hmid⟩
  · exact hkey.placed before mid hbs
  cases mid with
  | nil =>
    rw [List.append_nil]
    exact @Placed.key [] _ _ .nil hletters hblanks
  | cons x mid =>
    obtain ⟨rfl, hrest⟩ := List.cons.inj hmid
    rw [List.append_cons]
    exact (hmore.placed mid after hrest).append_left hcolon

theorem number (h : NumberLiteral bs) : Tidy bs := of_bare h.bare

end Tidy

section

variable {α : Type} {Item : α → List UInt8 → Prop} {closing : UInt8} {limit : Nat}
  (hclosing : Bare closing ∧ closing ≠ Byte.colon)
  (hitem : ∀ a bs, Item a bs → bs.length < limit → Tidy bs)
include hclosing hitem

theorem ListTail.tidy {as : List α} {bs : List UInt8} (h : ListTail Item closing as bs)
    (hlimit : bs.length < limit) : Tidy bs := by
  induction h with
  | nil hblanks =>
    exact (Tidy.blanks hblanks).append (.of_bare (List.forall_mem_singleton.mpr hclosing))
  | cons hblanks hblanks' htext _ ih =>
    simp only [List.length_append, List.length_cons] at hlimit
    have hcomma : Bare Byte.comma ∧ Byte.comma ≠ Byte.colon := by decide
    refine (Tidy.blanks hblanks).append (.cons hcomma ((Tidy.blanks hblanks').append ?_))
    exact (hitem _ _ htext (by omega)).append (ih (by omega))

theorem ListBody.tidy {as : List α} {bs : List UInt8} (h : ListBody Item closing as bs)
    (hlimit : bs.length < limit) : Tidy bs := by
  cases h with
  | nil hblanks =>
    exact (Tidy.blanks hblanks).append (.of_bare (List.forall_mem_singleton.mpr hclosing))
  | cons hblanks htext htail =>
    simp only [List.length_append] at hlimit
    refine (Tidy.blanks hblanks).append ((hitem _ _ htext (by omega)).append ?_)
    exact htail.tidy hclosing hitem (by omega)

end

theorem MemberText.tidy {Item : Tree → List UInt8 → Prop} {limit : Nat}
    (hitem : ∀ t bs, Item t bs → bs.length < limit → Tidy bs) (m : Option String × Tree)
    (bs : List UInt8) (h : MemberText Item m bs) (hlimit : bs.length < limit) : Tidy bs := by
  obtain ⟨⟨hletters⟩, hblanks, hblanks', hvalue⟩ := h
  simp only [List.length_append, List.length_cons] at hlimit
  exact .member hletters hblanks ((Tidy.blanks hblanks').append (hitem _ _ hvalue (by omega)))

/-- Texts of values are tidy.  By induction on their length, since they stand inside each other. -/
theorem ValueText.tidy {t : Tree} {bs : List UInt8} (h : ValueText t bs) : Tidy bs := by
  have hlimit : ∀ limit t bs, ValueText t bs → bs.length < limit → Tidy bs := by
    intro limit
    induction limit with
    | zero => exact fun _ _ _ hlength => absurd hlength (Nat.not_lt_zero _)
    | succ limit ih =>
      intro t bs h hlength
      cases h with
      | nullName => exact .of_all (by decide)
      | trueName => exact .of_all (by decide)
      | falseName => exact .of_all (by decide)
      | number h => exact .number h
      | string h =>
        obtain ⟨hletters⟩ := h
        exact .string hletters
      | array h =>
        exact .cons (by decide)
          (h.tidy (by decide) ih (Nat.lt_of_succ_lt_succ hlength))
      | object h =>
        exact .cons (by decide)
          (h.tidy (by decide) (MemberText.tidy ih) (Nat.lt_of_succ_lt_succ hlength))
  exact hlimit _ t bs h (Nat.lt_succ_self _)

theorem IsText.tidy {t : Tree} {bs : List UInt8} (h : IsText t bs) : Tidy bs := by
  obtain ⟨hblanks, htext, hblanks'⟩ := h
  exact (Tidy.blanks hblanks).append (htext.tidy.append (.blanks hblanks'))

/-! ## The last colon -/

/-- Of the colons among the bytes the last one that says anything says `v`, where `said` tells what a
colon says by the bytes before it. -/
def LastColon (said : List UInt8 → String → Prop) (bs : List UInt8) (v : String) : Prop :=
  ∃ front back, bs = front ++ Byte.colon :: back ∧ said front v ∧
    ∀ front' back' w, back = front' ++ Byte.colon :: back' →
      ¬ said (front ++ Byte.colon :: front') w

section

variable {said : List UInt8 → String → Prop} {bs : List UInt8} {v : String}

theorem not_lastColon_nil : ¬ LastColon said [] v := by
  rintro ⟨front, back, hbs, -⟩
  exact absurd hbs.symm (List.append_ne_nil_of_right_ne_nil _ (List.cons_ne_nil _ _))

/-- What is said last is said at the end, or earlier if nothing is said at the end. -/
theorem lastColon_concat {b : UInt8} : LastColon said (bs ++ [b]) v ↔
    b = Byte.colon ∧ said bs v ∨ (b = Byte.colon → ∀ w, ¬ said bs w) ∧ LastColon said bs v := by
  constructor
  · rintro ⟨front, back, hbs, hv, hlast⟩
    rcases List.eq_nil_or_concat' back with rfl | ⟨back, x, rfl⟩
    · obtain ⟨rfl, hb⟩ := List.append_inj' hbs rfl
      exact .inl ⟨(List.cons.inj hb).1, hv⟩
    · rw [← List.cons_append, ← List.append_assoc] at hbs
      obtain ⟨rfl, hb⟩ := List.append_inj' hbs rfl
      obtain rfl := (List.cons.inj hb).1
      refine .inr ⟨?_, front, back, rfl, hv, fun front' back' w hback => ?_⟩
      · rintro rfl w
        exact hlast back [] w rfl
      · refine hlast front' (back' ++ [b]) w ?_
        rw [hback, List.append_assoc, List.cons_append]
  · rintro (⟨rfl, hv⟩ | ⟨hend, front, back, rfl, hv, hlast⟩)
    · refine ⟨bs, [], rfl, hv, fun front' back' w hback => ?_⟩
      exact absurd hback.symm (List.append_ne_nil_of_right_ne_nil _ (List.cons_ne_nil _ _))
    · refine ⟨front, back ++ [b], by rw [List.append_assoc, List.cons_append], hv,
        fun front' back' w hback => ?_⟩
      rcases List.eq_nil_or_concat' back' with rfl | ⟨back', x, rfl⟩
      · obtain ⟨rfl, hb⟩ := List.append_inj' hback rfl
        exact hend (List.cons.inj hb).1 w
      · rw [← List.cons_append, ← List.append_assoc] at hback
        exact hlast front' back' w (List.append_inj' hback rfl).1

/-- Only what is said by the colons of the bytes counts. -/
theorem lastColon_congr {said' : List UInt8 → String → Prop}
    (h : ∀ front back w, bs = front ++ Byte.colon :: back → (said front w ↔ said' front w)) :
    LastColon said bs v ↔ LastColon said' bs v := by
  refine exists_congr fun front => exists_congr fun back => and_congr_right fun hbs => ?_
  refine and_congr (h front back v hbs) (forall_congr' fun front' => forall_congr' fun back' =>
    forall_congr' fun w => imp_congr_right fun hback => not_congr ?_)
  refine h (front ++ Byte.colon :: front') back' w ?_
  rw [hbs, hback, List.append_assoc, List.cons_append]

section

variable {more : List UInt8}

/-- What is said last among later colons is said last. -/
theorem LastColon.of_append
    (h : LastColon (fun front => said (bs ++ Byte.colon :: front)) more v) :
    LastColon said (bs ++ Byte.colon :: more) v := by
  obtain ⟨front, back, rfl, hv, hlast⟩ := h
  refine ⟨bs ++ Byte.colon :: front, back, ?_, hv, fun front' back' w hback => ?_⟩
  · rw [List.append_assoc, List.cons_append]
  · rw [List.append_assoc, List.cons_append]
    exact hlast front' back' w hback

/-- If a colon says something, then what is said last is said by it or by a later one. -/
theorem LastColon.append_cases {w : String} (hsaid : said bs w)
    (h : LastColon said (bs ++ Byte.colon :: more) v) :
    said bs v ∨ LastColon (fun front => said (bs ++ Byte.colon :: front)) more v := by
  obtain ⟨front, back, hsplit, hv, hlast⟩ := h
  rcases append_colon_cases hsplit with ⟨mid, rfl⟩ | ⟨mid, rfl, hmid⟩
  · -- the colon that is known comes after the last one
    refine absurd hsaid (hlast mid more w ?_)
    rw [List.append_assoc, List.cons_append] at hsplit
    exact (List.cons.inj (List.append_cancel_left hsplit)).2.symm
  cases mid with
  | nil =>
    rw [List.append_nil] at hv
    exact .inl hv
  | cons x mid =>
    obtain ⟨rfl, rfl⟩ := List.cons.inj hmid
    refine .inr ⟨mid, back, rfl, hv, fun front' back' w hback => ?_⟩
    have hnot := hlast front' back' w hback
    rwa [List.append_assoc, List.cons_append] at hnot

end

end

/-- Of the colons among the bytes after others the last one that says anything says `v`. -/
def LastSays (before : List UInt8) : List UInt8 → String → Prop :=
  LastColon fun front => Says (before ++ front)

theorem lastSays_behind_colon (before : List UInt8) : LastSays (before ++ [Byte.colon]) =
    LastColon fun front => Says (before ++ Byte.colon :: front) := by
  unfold LastSays
  simp only [List.append_assoc, List.singleton_append]

theorem keyBack?_cons (b : UInt8) (before : List UInt8) : keyBack? (b :: before) =
    (if b = Byte.colon then keyAt? before.reverse else none).or (keyBack? before) := by
  rw [keyBack?, keyAt?, List.reverse_reverse]
  cases if b = Byte.colon then quotedBack? (before.dropWhile isAsciiBlank) else none with
  | none => rfl
  | some k => rfl

theorem keyBack?_eq_some_iff {bs : List UInt8} {v : String} :
    keyBack? bs.reverse = some v ↔ LastColon (fun front w => keyAt? front = some w) bs v := by
  induction bs using List.reverseRecOn with
  | nil => exact iff_of_false nofun not_lastColon_nil
  | append_singleton bs b ih =>
    rw [List.reverse_append, List.reverse_singleton, List.singleton_append, keyBack?_cons,
      List.reverse_reverse, lastColon_concat, ← ih, Option.or_eq_some_iff]
    by_cases hb : b = Byte.colon
    · rw [if_pos hb, Option.eq_none_iff_forall_ne_some]
      simp only [hb, true_and, forall_const]
    · rw [if_neg hb]
      simp [hb]

/-- What stands before a place in a text stands in the text. -/
theorem eq_append_of_take {bs front back : List UInt8} {b : UInt8} {offset : Nat}
    (h : bs.take offset = front ++ b :: back) : bs = front ++ b :: (back ++ bs.drop offset) := by
  rw [← List.cons_append, ← List.append_assoc, ← h, List.take_append_drop]

/-- In a JSON text the key of a place is what the last colon before it says that says anything. -/
theorem keyBefore?_eq_some_iff {t : Tree} {bs : List UInt8} (h : IsText t bs) (offset : Nat)
    {v : String} : keyBefore? bs offset = some v ↔ LastSays [] (bs.take offset) v := by
  refine keyBack?_eq_some_iff.trans (lastColon_congr fun front back w hfront => ?_)
  -- colons before the place are colons of the text
  exact ⟨says_of_keyAt? (h.tidy.placed front _ (eq_append_of_take hfront)), Says.keyAt?⟩

end SchemaToGo.Json
