import SchemaToGo.Proofs.Go.Token.CarriageReturns
import SchemaToGo.Proofs.Go.Package
set_option autoImplicit false

/-!
# Line ends

A text whose lines end in a carriage return and a line feed is formatted as the text whose lines end
in the line feed alone: `format_withReturns`.  Both texts have the same tokens on the same lines,
the blanks at the ends of comments apart, and a tree's layout does not have these blanks.
-/

namespace SchemaToGo.Go

/-! ## Tokens -/

namespace Kind

theorem isComment_of_trimmed {k l : Kind} (h : l.trimmed = k.trimmed) :
    l.isComment = k.isComment := by
  cases k <;> cases l <;> first | rfl | cases h

theorem eq_of_trimmed {k l : Kind} (h : l.trimmed = k.trimmed) (hk : k.isComment = false) :
    l = k := by
  have hl : l.isComment = false := (isComment_of_trimmed h).trans hk
  rw [trimmed_eq_self hk, trimmed_eq_self hl] at h
  exact h

/-- Comments that are trimmed to the same. -/
theorem exists_of_trimmed {l : Kind} {text : List Char} (h : l.trimmed = (comment text).trimmed) :
    ∃ text', l = .comment text' ∧ Text.trimEnd text' = Text.trimEnd text := by
  obtain ⟨text', rfl⟩ := exists_of_isComment ((isComment_of_trimmed h).trans rfl)
  exact ⟨text', rfl, Kind.comment.inj h⟩

/-- A comment stands on one line. -/
theorem count_spelling_comment {text : List Char} (h : (comment text).Spelled) :
    (comment text).spelling.count '\n' = 0 := by
  obtain ⟨body, rfl, hbody⟩ := h
  refine List.count_eq_zero.mpr fun hmem => ?_
  simp only [spelling, List.mem_cons] at hmem
  rcases hmem with heq | heq | hmem
  · exact absurd heq (by decide)
  · exact absurd heq (by decide)
  · exact hbody hmem

theorem count_spelling_of_trimmed {k l : Kind} (hk : k.Spelled) (hl : l.Spelled)
    (h : l.trimmed = k.trimmed) : l.spelling.count '\n' = k.spelling.count '\n' := by
  cases hcomment : k.isComment with
  | false => rw [eq_of_trimmed h hcomment]
  | true =>
    obtain ⟨text, rfl⟩ := exists_of_isComment hcomment
    obtain ⟨text', rfl, _⟩ := exists_of_trimmed h
    rw [count_spelling_comment hk, count_spelling_comment hl]

theorem endsStatement_of_trimmed {k l : Kind} (h : l.trimmed = k.trimmed) :
    l.endsStatement = k.endsStatement := by
  cases hcomment : k.isComment with
  | false => rw [eq_of_trimmed h hcomment]
  | true =>
    obtain ⟨text, rfl⟩ := exists_of_isComment hcomment
    obtain ⟨text', rfl, _⟩ := exists_of_trimmed h
    rfl

end Kind

/-- A token of the same kind on the same line, the blanks at the end of a comment apart. -/
structure Token.Alike (t u : Token) : Prop where
  kind : u.kind.trimmed = t.kind.trimmed
  newlines : u.newlines = t.newlines
  line : u.place.line = t.place.line

def Glance.trimmed (g : Glance) : Glance := { g with kind := g.kind.trimmed }

/-- What marks bring depends on their tokens without the blanks at the ends of comments. -/
theorem Spot.emitText_trimmed (p : Spot) {ms ns : List Mark}
    (hms : ∀ k, .token k ∈ ms → k.Spelled) (hns : ∀ k, .token k ∈ ns → k.Spelled)
    (h : ns.map Mark.trimmed = ms.map Mark.trimmed) :
    (p.emitText ns).map Glance.trimmed = (p.emitText ms).map Glance.trimmed := by
  induction ms generalizing ns p with
  | nil =>
    rw [List.map_eq_nil_iff.mp h]
  | cons m ms ih =>
    obtain ⟨n, ns, rfl, hn, hrest⟩ := List.map_eq_cons_iff.mp h
    have hih := fun q => ih q (fun k hk => hms k (List.mem_cons_of_mem _ hk))
      (fun k hk => hns k (List.mem_cons_of_mem _ hk)) hrest
    rw [emitText_cons, emitText_cons, List.map_append, List.map_append]
    cases m with
    | feed =>
      cases n with
      | feed => rw [hih]
      | token l => cases hn
    | token k =>
      cases n with
      | feed => cases hn
      | token l =>
        have hkind := Mark.token.inj hn
        have hcount := Kind.count_spelling_of_trimmed (hms k List.mem_cons_self)
          (hns l List.mem_cons_self) hkind
        have hpass : p.pass (.token l) = p.pass (.token k) := by
          rw [pass, pass, hcount, Kind.endsStatement_of_trimmed hkind]
        have hemit : (p.emit (.token l)).map Glance.trimmed =
            (p.emit (.token k)).map Glance.trimmed := by
          simp only [emit, List.map_append, List.map_singleton, Glance.trimmed, hkind, hcount,
            Kind.isComment_of_trimmed hkind]
        rw [hpass, hemit, hih]

/-- Texts that are cut into the same marks, trimmed comments apart, have the same tokens. -/
theorem forall₂_alike_of_cuts {t u : List Char} {ms ns : List Mark} {r : Scanned}
    (ht : Cuts t ms []) (hu : Cuts u ns []) (h : ns.map Mark.trimmed = ms.map Mark.trimmed)
    (hr : scan t = .ok r) :
    ∃ r', scan u = .ok r' ∧ List.Forall₂ Token.Alike r.tokens r'.tokens := by
  obtain ⟨_, hr', hglances⟩ := scan_of_cuts ht
  cases hr.symm.trans hr'
  obtain ⟨r', hscan, hglances'⟩ := scan_of_cuts hu
  refine ⟨r', hscan, ?_⟩
  have htrimmed := Spot.initial.emitText_trimmed (fun _ => ht.spelled) (fun _ => hu.spelled) h
  rw [← hglances, ← hglances', List.map_map, List.map_map] at htrimmed
  rw [← List.forall₂_eq_eq_eq] at htrimmed
  simp only [List.forall₂_map_left_iff, List.forall₂_map_right_iff] at htrimmed
  refine htrimmed.flip.imp fun x y heq => ?_
  obtain ⟨hkind, hnewlines, hline⟩ := Glance.mk.inj heq
  exact ⟨hkind, hnewlines, hline⟩

/-! ## Trees -/

namespace Token.Alike

variable {t u : Token}

theorem kind_eq (h : Token.Alike t u) {k : Kind} (ht : t.kind = k) (hk : k.isComment = false) :
    u.kind = k :=
  Kind.eq_of_trimmed (ht ▸ h.kind) hk

theorem exists_comment (h : Token.Alike t u) {text : List Char} (ht : t.kind = .comment text) :
    ∃ text', u.kind = .comment text' ∧ Text.trimEnd text' = Text.trimEnd text :=
  Kind.exists_of_trimmed (ht ▸ h.kind)

end Token.Alike

/-- What is related to a text of two parts has two parts. -/
theorem exists_append_of_forall₂ {α β : Type} {R : α → β → Prop} {as bs : List α} {cs : List β}
    (h : List.Forall₂ R (as ++ bs) cs) :
    ∃ as' bs', cs = as' ++ bs' ∧ List.Forall₂ R as as' ∧ List.Forall₂ R bs bs' := by
  induction as generalizing cs with
  | nil => exact ⟨[], cs, rfl, .nil, h⟩
  | cons a as ih =>
    cases h with
    | cons hab h =>
      obtain ⟨as', bs', rfl, has, hbs⟩ := ih h
      exact ⟨_ :: as', bs', rfl, .cons hab has, hbs⟩

section

variable {ts us : List Token}

theorem readsName_alike {name : List Char} (h : ReadsName ts name)
    (hts : List.Forall₂ Token.Alike ts us) : ReadsName us name := by
  cases h with
  | plain ht hword =>
    obtain _ | ⟨h, _ | _⟩ := hts
    exact .plain (h.kind_eq ht rfl) hword
  | qualified ht hfirst hdot hu hsecond =>
    obtain _ | ⟨h, _ | ⟨hd, _ | ⟨h', _ | _⟩⟩⟩ := hts
    exact .qualified (h.kind_eq ht rfl) hfirst (hd.kind_eq hdot rfl) (h'.kind_eq hu rfl) hsecond

theorem readsTag_alike {tag : Option (List Char)} (h : ReadsTag ts tag)
    (hts : List.Forall₂ Token.Alike ts us) : ReadsTag us tag := by
  cases h with
  | none =>
    cases hts
    exact .none
  | some ht =>
    obtain _ | ⟨h, _ | _⟩ := hts
    exact .some (h.kind_eq ht rfl)

theorem noTrailingComment_alike (h : Parse.NoTrailingComment ts)
    (hts : List.Forall₂ Token.Alike ts us) : Parse.NoTrailingComment us := by
  cases hts with
  | nil => exact nofun
  | @cons t u _ _ hu _ =>
    intro x hx text hx'
    cases hx
    obtain ⟨text', ht⟩ := Kind.exists_of_isComment
      ((Kind.isComment_of_trimmed hu.kind).symm.trans (by rw [hx']; rfl))
    rw [hu.newlines]
    exact h t rfl text' ht

theorem ends_alike {ts' : List Token} (h : Ends ts ts') (hts : List.Forall₂ Token.Alike ts us) :
    ∃ us', Ends us us' ∧ List.Forall₂ Token.Alike ts' us' := by
  cases h with
  | semicolon ht =>
    obtain _ | ⟨h, hts⟩ := hts
    exact ⟨_, .semicolon (h.kind_eq ht rfl), hts⟩
  | finish =>
    cases hts
    exact ⟨[], .finish, .nil⟩

end

mutual

/-- Tokens that are alike are read as types of one layout. -/
theorem exists_readsType_alike {ts : List Token} {x : TypeExpr} : ReadsType ts x →
    ∀ {us : List Token}, List.Forall₂ Token.Alike ts us →
      ∃ y, ReadsType us y ∧ ∀ depth, y.text depth = x.text depth
  | .name h, _, hts => ⟨_, .name (readsName_alike h hts), fun _ => rfl⟩
  | .pointer ht h, _, .cons ht' hts => by
    obtain ⟨y, hy, htext⟩ := exists_readsType_alike h hts
    exact ⟨_, .pointer (ht'.kind_eq ht rfl) hy, fun depth => congrArg ('*' :: ·) (htext depth)⟩
  | .slice ht hu h, _, .cons ht' (.cons hu' hts) => by
    obtain ⟨y, hy, htext⟩ := exists_readsType_alike h hts
    exact ⟨_, .slice (ht'.kind_eq ht rfl) (hu'.kind_eq hu rfl) hy,
      fun depth => congrArg ('[' :: ']' :: ·) (htext depth)⟩
  | .array ht hu hv h, _, .cons ht' (.cons hu' (.cons hv' hts)) => by
    obtain ⟨y, hy, htext⟩ := exists_readsType_alike h hts
    exact ⟨_, .array (ht'.kind_eq ht rfl) (hu'.kind_eq hu rfl) (hv'.kind_eq hv rfl) hy,
      fun depth => congrArg ('[' :: _ ++ ']' :: ·) (htext depth)⟩
  | .map ht hu hkey hv hvalue, _, .cons ht' (.cons hu' hts) => by
    obtain ⟨_, _, rfl, hkeys, _ | ⟨hv', hvalues⟩⟩ := exists_append_of_forall₂ hts
    obtain ⟨k, hk, hkeyText⟩ := exists_readsType_alike hkey hkeys
    obtain ⟨v, hv'', hvalueText⟩ := exists_readsType_alike hvalue hvalues
    refine ⟨_, .map (ht'.kind_eq ht rfl) (hu'.kind_eq hu rfl) hk (hv'.kind_eq hv rfl) hv'',
      fun depth => ?_⟩
    show "map[".toList ++ k.text depth ++ ']' :: v.text depth = _
    rw [hkeyText, hvalueText]
    rfl
  | .emptyInterface ht hu hv, _, .cons ht' (.cons hu' (.cons hv' .nil)) =>
    ⟨_, .emptyInterface (ht'.kind_eq ht rfl) (hu'.kind_eq hu rfl) (hv'.kind_eq hv rfl),
      fun _ => rfl⟩
  | @ReadsType.struct t u v ts members ht hu h hv, _, .cons ht' (.cons hu' hts) => by
    obtain ⟨_, _, rfl, hinside, _ | ⟨hv', _ | _⟩⟩ := exists_append_of_forall₂ hts
    obtain ⟨ns, hns, hlines⟩ := exists_readsMembers_alike h hinside
    refine ⟨_, .struct (ht'.kind_eq ht rfl) (hu'.kind_eq hu rfl) hns (hv'.kind_eq hv rfl),
      fun depth => ?_⟩
    show structText depth _ (bodyLines (depth + 1) ns) = structText depth _ _
    rw [hlines, hu'.line, hv'.line]

theorem exists_readsField_alike {ts : List Token} {name : Option (List Char)} {x : TypeExpr}
    {tag : Option (List Char)} : ReadsField ts name x tag →
    ∀ {us : List Token}, List.Forall₂ Token.Alike ts us →
      ∃ y, ReadsField us name y tag ∧ ∀ depth, y.text depth = x.text depth
  | .named ht hword h htag, _, .cons ht' hts => by
    obtain ⟨_, _, rfl, htypes, htags⟩ := exists_append_of_forall₂ hts
    obtain ⟨y, hy, htext⟩ := exists_readsType_alike h htypes
    exact ⟨y, .named (ht'.kind_eq ht rfl) hword hy (readsTag_alike htag htags), htext⟩
  | .embedded h htag, _, hts => by
    obtain ⟨_, _, rfl, hnames, htags⟩ := exists_append_of_forall₂ hts
    exact ⟨_, .embedded (readsName_alike h hnames) (readsTag_alike htag htags), fun _ => rfl⟩
  | .pointer ht h htag, _, .cons ht' hts => by
    obtain ⟨_, _, rfl, htypes, htags⟩ := exists_append_of_forall₂ hts
    obtain ⟨y, hy, htext⟩ := exists_readsType_alike h htypes
    exact ⟨_, .pointer (ht'.kind_eq ht rfl) hy (readsTag_alike htag htags),
      fun depth => congrArg ('*' :: ·) (htext depth)⟩

/-- Tokens that are alike are read as members that make the same lines. -/
theorem exists_readsMembers_alike {ts : List Token} {ms : List Member} : ReadsMembers ts ms →
    ∀ {us : List Token}, List.Forall₂ Token.Alike ts us →
      ∃ ns, ReadsMembers us ns ∧ ∀ depth, bodyLines depth ns = bodyLines depth ms
  | .nil, _, .nil => ⟨[], .nil, fun _ => rfl⟩
  | .comment ht h, _, .cons ht' hts => by
    obtain ⟨ns, hns, hlines⟩ := exists_readsMembers_alike h hts
    obtain ⟨text, hu, htext⟩ := ht'.exists_comment ht
    refine ⟨_, .comment hu hns, fun depth => ?_⟩
    simp only [bodyLines, ht'.newlines, htext, hlines]
  | .last h, _, hts => by
    obtain ⟨y, hy, htext⟩ := exists_readsField_alike h hts
    obtain _ | ⟨ht', hts⟩ := hts
    refine ⟨_, .last hy, fun depth => ?_⟩
    simp only [bodyLines, ht'.newlines, htext]
  | @ReadsMembers.field t semicolon _ ts us _ _ _ _ h hsemicolon hnone hmore, _, hts => by
    have hall : List.Forall₂ Token.Alike ((t :: ts) ++ semicolon :: us) _ := hts
    obtain ⟨_, _, rfl, hfields, hrest⟩ := exists_append_of_forall₂ hall
    obtain _ | ⟨hsemicolon', hrest⟩ := hrest
    obtain ⟨y, hy, htext⟩ := exists_readsField_alike h hfields
    obtain ⟨ns, hns, hlines⟩ := exists_readsMembers_alike hmore hrest
    obtain _ | ⟨ht', _⟩ := hfields
    refine ⟨_, .field hy (hsemicolon'.kind_eq hsemicolon rfl)
      (noTrailingComment_alike hnone hrest) hns, fun depth => ?_⟩
    simp only [bodyLines, ht'.newlines, htext, hlines]
  | @ReadsMembers.commented t semicolon u _ _ ts us _ _ _ _ h hsemicolon hu hline hmore, _,
      hts => by
    have hall : List.Forall₂ Token.Alike ((t :: ts) ++ semicolon :: u :: us) _ := hts
    obtain ⟨_, _, rfl, hfields, hrest⟩ := exists_append_of_forall₂ hall
    obtain _ | ⟨hsemicolon', _ | ⟨hu', hrest⟩⟩ := hrest
    obtain ⟨y, hy, htext⟩ := exists_readsField_alike h hfields
    obtain ⟨ns, hns, hlines⟩ := exists_readsMembers_alike hmore hrest
    obtain ⟨text, hcomment, htrimmed⟩ := hu'.exists_comment hu
    obtain _ | ⟨ht', _⟩ := hfields
    refine ⟨_, .commented hy (hsemicolon'.kind_eq hsemicolon rfl) hcomment
      (hu'.newlines.trans hline) hns, fun depth => ?_⟩
    simp only [bodyLines, fieldCells, ht'.newlines, htext, hlines, htrimmed]

end

/-! ## Files -/

/-- Items of one kind with the same text, at the same distance from the item before. -/
structure Item.SameLayout (i j : Item) : Prop where
  newlines : j.newlines = i.newlines
  alike : Item.Alike i j
  text : j.text = i.text

/-- Tokens that are alike are read as items of one layout. -/
theorem exists_readsItems_alike {packaged : Bool} {ts : List Token} {its : List Item}
    (h : ReadsItems packaged ts its) {us : List Token} (hts : List.Forall₂ Token.Alike ts us) :
    ∃ its', ReadsItems packaged us its' ∧ List.Forall₂ Item.SameLayout its its' := by
  induction h generalizing us with
  | nil =>
    cases hts
    exact ⟨[], .nil, .nil⟩
  | comment ht _ ih =>
    obtain _ | ⟨ht', hts⟩ := hts
    obtain ⟨its', hits, hsame⟩ := ih hts
    obtain ⟨text, hu, htext⟩ := ht'.exists_comment ht
    exact ⟨_, .comment hu hits, .cons ⟨ht'.newlines, ⟨rfl, rfl, rfl⟩, htext⟩ hsame⟩
  | package ht hu hname hend _ ih =>
    obtain _ | ⟨ht', _ | ⟨hu', hts⟩⟩ := hts
    obtain ⟨us', hend', hrest⟩ := ends_alike hend hts
    obtain ⟨its', hits, hsame⟩ := ih hrest
    exact ⟨_, .package (ht'.kind_eq ht rfl) (hu'.kind_eq hu rfl) hname hend' hits,
      .cons ⟨ht'.newlines, ⟨rfl, rfl, rfl⟩, rfl⟩ hsame⟩
  | @type t u name ts us vs x more ht hu hname htype hend _ ih =>
    obtain _ | ⟨ht', _ | ⟨hu', hts⟩⟩ := hts
    obtain ⟨_, _, rfl, htypes, hrest⟩ := exists_append_of_forall₂ hts
    obtain ⟨y, hy, htext⟩ := exists_readsType_alike htype htypes
    obtain ⟨us', hend', hrest⟩ := ends_alike hend hrest
    obtain ⟨its', hits, hsame⟩ := ih hrest
    refine ⟨_, .type (ht'.kind_eq ht rfl) (hu'.kind_eq hu rfl) hname hy hend' hits,
      .cons ⟨ht'.newlines, ⟨rfl, rfl, rfl⟩, ?_⟩ hsame⟩
    exact congrArg ("type ".toList ++ name ++ ' ' :: ·) (htext 0)

section

variable {items items' before before' : List Item}

theorem documentsType_sameLayout (h : List.Forall₂ Item.SameLayout items items') :
    documentsType items' = documentsType items := by
  induction h with
  | nil => rfl
  | cons hitem _ ih =>
    simp only [documentsType, hitem.newlines, ← hitem.alike.comment, ← hitem.alike.type, ih]

theorem needsBlankLine_sameLayout {item item' : Item} (hitem : Item.SameLayout item item')
    (hafter : List.Forall₂ Item.SameLayout items items') (before : List Item) :
    needsBlankLine before item' items' = needsBlankLine before item items := by
  have hdocuments := documentsType_sameLayout hafter
  obtain ⟨_, decl⟩ := item
  obtain ⟨_, decl'⟩ := item'
  unfold needsBlankLine
  cases decl with
  | comment => cases decl' with
    | comment => simp only [hdocuments]
    | package => exact nomatch hitem.alike.comment
    | type => exact nomatch hitem.alike.comment
  | package => cases decl' with
    | comment => exact nomatch hitem.alike.package
    | package => rfl
    | type => exact nomatch hitem.alike.package
  | type => cases decl' with
    | comment => exact nomatch hitem.alike.type
    | package => exact nomatch hitem.alike.type
    | type => rfl

theorem itemsText_sameLayout (h : List.Forall₂ Item.SameLayout items items')
    (hbefore : List.Forall₂ Item.Alike before before') :
    itemsText before' items' = itemsText before items := by
  induction h generalizing before before' with
  | nil => rfl
  | @cons item item' after after' hitem hafter ih =>
    have hseparator : separator before' item' after' = separator before item after := by
      rw [← separator_alike hbefore]
      simp only [separator, needsBlankLine_sameLayout hitem hafter, hitem.newlines,
        ← hitem.alike.comment]
    rw [itemsText, itemsText, hseparator, hitem.text, ih (.cons hitem.alike hbefore)]

/-- Items of one layout make the same file. -/
theorem fileText_sameLayout (h : List.Forall₂ Item.SameLayout items items') :
    fileText items' = fileText items := by
  cases h with
  | nil => rfl
  | cons hitem hrest =>
    rw [fileText, fileText, hitem.text, itemsText_sameLayout hrest (.cons hitem.alike .nil)]

end

/-! ## Texts -/

/-- The text whose lines end in a carriage return and a line feed. -/
def withReturns (t : List Char) : List Char :=
  t.flatMap fun c => if c = '\n' then ['\r', '\n'] else [c]

theorem returned_withReturns (t : List Char) : Returned t (withReturns t) := by
  induction t with
  | nil => exact .nil
  | cons c rest ih =>
    unfold withReturns
    rw [List.flatMap_cons]
    split
    · next hc =>
      subst hc
      exact .feed ih
    · exact .cons c ih

/-- Texts that are cut alike are formatted alike. -/
theorem format_of_cuts {s s' t : String} {ms ns : List Mark} (hs : Cuts s.toList ms [])
    (hs' : Cuts s'.toList ns []) (h : ns.map Mark.trimmed = ms.map Mark.trimmed)
    (ht : format s = .ok t) : format s' = .ok t := by
  obtain ⟨its, hread, rfl⟩ := format_eq_ok_iff.mp ht
  obtain ⟨r, hr, hits⟩ := readFile_eq_ok_iff.mp hread
  obtain ⟨r', hr', halike⟩ := forall₂_alike_of_cuts hs hs' h hr
  obtain ⟨its', hits', hsame⟩ := exists_readsItems_alike hits halike
  have hread' := readFile_eq_ok_iff.mpr ⟨r', hr', hits'⟩
  exact format_eq_ok_iff.mpr ⟨its', hread', congrArg String.ofList (fileText_sameLayout hsame).symm⟩

/-- Only texts that can be cut are formatted. -/
theorem exists_cuts_of_format {s t : String} (h : format s = .ok t) :
    ∃ ms, Cuts s.toList ms [] := by
  obtain ⟨its, hread, -⟩ := format_eq_ok_iff.mp h
  obtain ⟨r, hr, -⟩ := readFile_eq_ok_iff.mp hread
  exact exists_cuts hr

/-- How the lines of a text end makes no difference: with a carriage return before every line feed
the text is formatted exactly if it is formatted without them, and to the same text. -/
theorem format_withReturns (s t : String) :
    format (String.ofList (withReturns s.toList)) = .ok t ↔ format s = .ok t := by
  have hreturned : Returned s.toList (String.ofList (withReturns s.toList)).toList := by
    rw [String.toList_ofList]
    exact returned_withReturns _
  constructor
  · intro h
    obtain ⟨ns, hns⟩ := exists_cuts_of_format h
    obtain ⟨ms, hms, hmarks⟩ := hreturned.exists_cuts_without hns
    exact format_of_cuts hns hms hmarks.symm h
  · intro h
    obtain ⟨ms, hms⟩ := exists_cuts_of_format h
    obtain ⟨ns, hns, hmarks⟩ := hreturned.exists_cuts hms
    exact format_of_cuts hms hns hmarks h

end SchemaToGo.Go
