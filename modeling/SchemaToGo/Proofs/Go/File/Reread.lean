import SchemaToGo.Proofs.Go.File.Parse
import SchemaToGo.Proofs.Go.File.Canonical
import SchemaToGo.Proofs.Go.File.Layout
set_option autoImplicit false

/-!
# Layouts are read again

The tokens that the marks of a proper tree bring, inserted semicolons included, are read as the
canonical tree: every comment stays with the field it stood at, and every line break is counted
where it was.  Main statement: `readFile_fileText`.
-/

namespace SchemaToGo.Go

/-! ## Single tokens -/

section

variable {p : Spot} {k : Kind} {ms : List Mark} {us : List Token}

/-- A token comes first, unless a semicolon is inserted before it. -/
theorem exists_token (h : p.due = false ∨ k.isComment = false)
    (hus : us.map Token.glance = p.emitAll (.token k :: ms)) :
    ∃ u us', us = u :: us' ∧ (u.kind = k ∧ u.newlines = p.newlines ∧ u.place.line = p.line) ∧
      us'.map Token.glance = (p.pass (.token k)).emitAll ms := by
  have hemit : p.emitAll (.token k :: ms) =
      ⟨k, p.newlines, p.line⟩ :: (p.pass (.token k)).emitAll ms :=
    congrArg (· ++ _) (Spot.emit_token h)
  rw [hemit] at hus
  obtain ⟨u, us', rfl, hu, hus'⟩ := List.map_eq_cons_iff.mp hus
  exact ⟨u, us', rfl, ⟨congrArg Glance.kind hu, congrArg Glance.newlines hu,
    congrArg Glance.line hu⟩, hus'⟩

/-- Where a line breaks, a semicolon is inserted if it is due. -/
def AfterDue (due : Bool) (us us' : List Token) : Prop :=
  if due then ∃ u, us = u :: us' ∧ u.kind = .semicolon true else us = us'

theorem exists_afterDue_insertion {line : Nat} {gs : List Glance}
    (hus : us.map Token.glance = p.insertion line ++ gs) :
    ∃ us', AfterDue p.due us us' ∧ us'.map Token.glance = gs := by
  unfold Spot.insertion at hus
  unfold AfterDue
  cases hdue : p.due with
  | false =>
    rw [hdue] at hus
    exact ⟨us, rfl, hus⟩
  | true =>
    rw [hdue] at hus
    obtain ⟨u, us', rfl, hu, hus'⟩ := List.map_eq_cons_iff.mp hus
    exact ⟨us', ⟨u, rfl, congrArg Glance.kind hu⟩, hus'⟩

theorem exists_afterDue_feed (hus : us.map Token.glance = p.emitAll (.feed :: ms)) :
    ∃ us', AfterDue p.due us us' ∧ us'.map Token.glance = (p.pass .feed).emitAll ms :=
  exists_afterDue_insertion hus

/-- Before a comment a semicolon is inserted if it is due. -/
theorem exists_afterDue_comment {text : List Char}
    (hus : us.map Token.glance = p.emitAll (.token (.comment text) :: ms)) :
    ∃ u us', AfterDue p.due us (u :: us') ∧
      (u.kind = .comment text ∧ u.newlines = p.newlines) ∧
      us'.map Token.glance = (p.pass (.token (.comment text))).emitAll ms := by
  have hemit : p.emitAll (.token (.comment text) :: ms) =
      p.insertion (p.line + text.count '\n') ++ ⟨.comment text, p.newlines, p.line⟩ ::
        (p.pass (.token (.comment text))).emitAll ms := List.append_assoc _ _ _
  rw [hemit] at hus
  obtain ⟨_, hafter, hrest⟩ := exists_afterDue_insertion hus
  obtain ⟨u, us', rfl, hu, hus'⟩ := List.map_eq_cons_iff.mp hrest
  exact ⟨u, us', hafter, ⟨congrArg Glance.kind hu, congrArg Glance.newlines hu⟩, hus'⟩

/-- Tokens of marks are those of the first marks and those of the others. -/
theorem exists_append {ns : List Mark} (hus : us.map Token.glance = p.emitAll (ms ++ ns)) :
    ∃ vs ws, us = vs ++ ws ∧ vs.map Token.glance = p.emitAll ms ∧
      ws.map Token.glance = (p.passAll ms).emitAll ns := by
  rw [Spot.emitAll_append] at hus
  exact List.map_eq_append_iff.mp hus

theorem eq_nil_of_glances (hus : us.map Token.glance = p.emitAll []) : us = [] :=
  List.map_eq_nil_iff.mp hus

end

/-! ## Ends of statements -/

/-- The last mark is a token that ends a statement. -/
def Closes (ms : List Mark) : Prop :=
  ∃ before k, ms = before ++ [.token k] ∧ k.endsStatement = true

theorem Closes.append {ms : List Mark} (h : Closes ms) (before : List Mark) :
    Closes (before ++ ms) := by
  obtain ⟨initial, k, rfl, hk⟩ := h
  exact ⟨before ++ initial, k, (List.append_assoc _ _ _).symm, hk⟩

theorem Closes.spot {ms : List Mark} (h : Closes ms) (p : Spot) :
    (p.passAll ms).due = true ∧ (p.passAll ms).newlines = 0 := by
  obtain ⟨before, k, rfl, hk⟩ := h
  rw [Spot.passAll_append]
  exact ⟨hk, rfl⟩

theorem endsStatement_word {word : List Char} (h : isKeyword word = false) :
    (Kind.word word).endsStatement = true := by
  show (!isKeyword word || _) = true
  rw [h]
  rfl

theorem closes_word {word : List Char} (h : isIdentifier word = true) :
    Closes [.token (.word word)] :=
  ⟨[], .word word, rfl, endsStatement_word (isWord_of_isIdentifier h).2⟩

theorem closes_name {name : List Char} (h : ProperName name) :
    Closes ((nameKinds name).map .token) := by
  cases h with
  | plain hword =>
    rw [nameKinds_plain (isWord_of_isIdentifier hword).1]
    exact closes_word hword
  | qualified hfirst hsecond =>
    rw [nameKinds_qualified (isWord_of_isIdentifier hfirst).1]
    exact (closes_word hsecond).append [_, _]

/-- A line break after a type ends the statement. -/
theorem closes_type {x : TypeExpr} : ProperType x → Closes x.marks
  | .name h => closes_name h
  | .pointer h => (closes_type h).append [_]
  | .slice h => (closes_type h).append [_, _]
  | .array _ h => (closes_type h).append [_, _, _]
  | @ProperType.map key _ _ hvalue =>
    (((closes_type hvalue).append [_]).append key.marks).append [_, _]
  | .emptyInterface => ⟨[_, _], _, rfl, rfl⟩
  | .struct _ => ⟨_ :: _ :: _, _, rfl, rfl⟩

theorem closes_fieldMarks {name : Option (List Char)} {ms : List Mark} (h : Closes ms)
    (tag : Option (List Char)) : Closes (fieldMarks name ms tag) := by
  unfold fieldMarks
  cases tag with
  | none =>
    rw [Option.toList_none, List.map_nil, List.append_nil]
    exact h.append _
  | some literal => exact ⟨_, .str literal, rfl, rfl⟩

theorem ProperField.properType {name : Option (List Char)} {x : TypeExpr} (h : ProperField name x) :
    ProperType x := by
  cases h with
  | named _ h => exact h
  | embedded h => exact .name h
  | pointer h => exact .pointer h

/-! ## Types -/

theorem readsName_of_glances {name : List Char} (h : ProperName name) {p : Spot}
    {us : List Token} (hus : us.map Token.glance = p.emitAll ((nameKinds name).map .token)) :
    ReadsName us name := by
  cases h with
  | plain hword =>
    obtain ⟨hword, hkeyword⟩ := isWord_of_isIdentifier hword
    rw [nameKinds_plain hword] at hus
    obtain ⟨t, _, rfl, ⟨ht, _⟩, hus⟩ := exists_token (.inr rfl) hus
    cases eq_nil_of_glances hus
    exact .plain ht hkeyword
  | qualified hfirst hsecond =>
    obtain ⟨hfirst, hfirstKeyword⟩ := isWord_of_isIdentifier hfirst
    obtain ⟨_, hsecondKeyword⟩ := isWord_of_isIdentifier hsecond
    rw [nameKinds_qualified hfirst] at hus
    obtain ⟨t, _, rfl, ⟨ht, _⟩, hus⟩ := exists_token (.inr rfl) hus
    obtain ⟨dot, _, rfl, ⟨hdot, _⟩, hus⟩ := exists_token (.inr rfl) hus
    obtain ⟨u, _, rfl, ⟨hu, _⟩, hus⟩ := exists_token (.inr rfl) hus
    cases eq_nil_of_glances hus
    exact .qualified ht hfirstKeyword hdot hu hsecondKeyword

theorem readsTag_of_glances (tag : Option (List Char)) {p : Spot} {us : List Token}
    (hus : us.map Token.glance = p.emitAll (tag.toList.map fun literal => .token (.str literal))) :
    ReadsTag us tag := by
  cases tag with
  | none =>
    cases eq_nil_of_glances hus
    exact .none
  | some literal =>
    obtain ⟨t, _, rfl, ⟨ht, _⟩, hus⟩ := exists_token (.inr rfl) hus
    cases eq_nil_of_glances hus
    exact .some ht

/-- A field starts with a token, and no comment. -/
theorem fieldMarks_cons {name : Option (List Char)} {x : TypeExpr} (h : ProperField name x)
    (tag : Option (List Char)) :
    ∃ k ms, fieldMarks name x.marks tag = .token k :: ms ∧ k.isComment = false := by
  cases h with
  | named => exact ⟨_, _, rfl, rfl⟩
  | @embedded name h =>
    obtain ⟨word, rest, hname⟩ : ∃ word rest, nameKinds name = .word word :: rest := by
      cases h with
      | plain hword => exact ⟨_, _, nameKinds_plain (isWord_of_isIdentifier hword).1⟩
      | qualified hfirst => exact ⟨_, _, nameKinds_qualified (isWord_of_isIdentifier hfirst).1 _⟩
    have hmarks : fieldMarks none (TypeExpr.named name).marks tag =
        (nameKinds name).map .token ++ tag.toList.map fun literal => .token (.str literal) := rfl
    rw [hname] at hmarks
    exact ⟨.word word, _, hmarks, rfl⟩
  | pointer => exact ⟨_, _, rfl, rfl⟩

/-- After the gap before a member no semicolon is due, and the line breaks are those of the
canonical tree. -/
theorem exists_gap {p : Spot} (hdue : p.due = false) (hnewlines : p.newlines = 1) (first : Bool)
    (newlines : Nat) : ∃ q : Spot, q.due = false ∧ q.newlines = memberNewlines first newlines ∧
      ∀ ms, p.emitAll (gapMarks first newlines ++ ms) = q.emitAll ms := by
  unfold gapMarks memberNewlines
  split
  · refine ⟨p.pass .feed, rfl, congrArg (· + 1) hnewlines, fun ms => ?_⟩
    exact congrArg (· ++ _) (Spot.emit_feed hdue)
  · exact ⟨p, hdue, hnewlines, fun ms => rfl⟩

/-- The line after a comment. -/
theorem emitAll_feed {p : Spot} (hdue : p.due = false) (ms : List Mark) :
    p.emitAll (.feed :: ms) = (p.pass .feed).emitAll ms :=
  congrArg (· ++ _) (Spot.emit_feed hdue)

theorem noTrailingComment_of_glances {p : Spot} (hdue : p.due = false) (hnewlines : p.newlines = 1)
    {ms : List Mark} {us : List Token} (hus : us.map Token.glance = p.emitAll ms) :
    Parse.NoTrailingComment us := by
  intro u hu _ _
  have hhead : u.glance ∈ (p.emitAll ms).head? := by
    rw [← hus, List.head?_map, Option.mem_def.mp hu]
    rfl
  have hpos : 1 ≤ u.newlines := hnewlines ▸ Spot.newlines_le_of_head?_emitAll hdue _ hhead
  exact Nat.ne_of_gt hpos

/-- The braces of a struct are on different lines exactly if those of the canonical struct are. -/
theorem line_interiorMarks (p : Spot) (multiline : Bool) (members : List Member) :
    (p.passAll (interiorMarks multiline (memberMarks members))).line ≠ p.line ↔
      (multiline || !members.isEmpty) = true := by
  have hfeed : ∀ ms, (p.passAll (.feed :: ms)).line ≠ p.line := fun ms =>
    Nat.ne_of_gt ((p.pass .feed).line_le_passAll ms)
  unfold interiorMarks
  cases members with
  | nil =>
    cases multiline with
    | true => exact ⟨fun _ => rfl, fun _ => hfeed []⟩
    | false => exact ⟨fun h => absurd rfl h, nofun⟩
  | cons m rest =>
    have hlines : (memberMarks (m :: rest)).isEmpty = false := by cases m <;> rfl
    rw [if_neg (by rw [hlines]; exact Bool.false_ne_true)]
    exact ⟨fun _ => Bool.or_true multiline, fun _ => hfeed _⟩

/-- What stands between the braces of a struct is read as its members if its lines are. -/
theorem readsMembers_of_interior {p : Spot} (hdue : p.due = false) {multiline : Bool}
    {members : List Member} {us : List Token}
    (hus : us.map Token.glance = p.emitAll (interiorMarks multiline (memberMarks members)))
    (hlines : ∀ {vs : List Token}, vs.map Token.glance =
        (p.pass .feed).emitAll (bodyMarks true (memberMarks members)) →
      ReadsMembers vs (canonicalMembers true members)) :
    ReadsMembers us (canonicalMembers true members) := by
  unfold interiorMarks at hus
  split at hus
  · next hempty =>
    obtain rfl : members = [] := by
      cases members with
      | nil => rfl
      | cons m rest => cases m <;> cases hempty
    have hnil : us = [] := by
      split at hus
      · rw [emitAll_feed hdue] at hus
        exact eq_nil_of_glances hus
      · exact eq_nil_of_glances hus
    rw [hnil]
    exact .nil
  · rw [emitAll_feed hdue] at hus
    exact hlines hus

mutual

/-- The tokens of a proper type's marks are read as the canonical type. -/
theorem readsType_of_glances {x : TypeExpr} : ProperType x → ∀ {p : Spot} {us : List Token},
    us.map Token.glance = p.emitAll x.marks → ReadsType us x.canonical
  | .name h, _, _, hus => .name (readsName_of_glances h hus)
  | .pointer h, _, _, hus => by
    obtain ⟨t, _, rfl, ⟨ht, _⟩, hus⟩ := exists_token (.inr rfl) hus
    exact .pointer ht (readsType_of_glances h hus)
  | .slice h, _, _, hus => by
    obtain ⟨t, _, rfl, ⟨ht, _⟩, hus⟩ := exists_token (.inr rfl) hus
    obtain ⟨u, _, rfl, ⟨hu, _⟩, hus⟩ := exists_token (.inr rfl) hus
    exact .slice ht hu (readsType_of_glances h hus)
  | .array _ h, _, _, hus => by
    obtain ⟨t, _, rfl, ⟨ht, _⟩, hus⟩ := exists_token (.inr rfl) hus
    obtain ⟨u, _, rfl, ⟨hu, _⟩, hus⟩ := exists_token (.inr rfl) hus
    obtain ⟨v, _, rfl, ⟨hv, _⟩, hus⟩ := exists_token (.inr rfl) hus
    exact .array ht hu hv (readsType_of_glances h hus)
  | .map hkey hvalue, _, _, hus => by
    obtain ⟨t, _, rfl, ⟨ht, _⟩, hus⟩ := exists_token (.inr rfl) hus
    obtain ⟨u, _, rfl, ⟨hu, _⟩, hus⟩ := exists_token (.inr rfl) hus
    obtain ⟨keyTokens, _, rfl, hkeys, hus⟩ := exists_append hus
    obtain ⟨v, _, rfl, ⟨hv, _⟩, hus⟩ := exists_token (.inr rfl) hus
    exact .map ht hu (readsType_of_glances hkey hkeys) hv (readsType_of_glances hvalue hus)
  | .emptyInterface, _, _, hus => by
    obtain ⟨t, _, rfl, ⟨ht, _⟩, hus⟩ := exists_token (.inr rfl) hus
    obtain ⟨u, _, rfl, ⟨hu, _⟩, hus⟩ := exists_token (.inr rfl) hus
    obtain ⟨v, _, rfl, ⟨hv, _⟩, hus⟩ := exists_token (.inr rfl) hus
    cases eq_nil_of_glances hus
    exact .emptyInterface ht hu hv
  | @ProperType.struct members multiline h, p, _, hus => by
    obtain ⟨t, _, rfl, ⟨ht, _⟩, hus⟩ := exists_token (.inr rfl) hus
    obtain ⟨u, _, rfl, ⟨hu, _, hopen⟩, hus⟩ := exists_token (.inr rfl) hus
    obtain ⟨memberTokens, _, rfl, hmembers, hus⟩ := exists_append hus
    obtain ⟨v, _, rfl, ⟨hv, _, hclose⟩, hus⟩ := exists_token (.inr rfl) hus
    cases eq_nil_of_glances hus
    have hread := readsMembers_of_interior rfl hmembers (readsMembers_of_glances h rfl rfl)
    have hflag : decide (v.place.line ≠ u.place.line) = (multiline || !members.isEmpty) := by
      rw [Bool.eq_iff_iff, decide_eq_true_iff, hopen, hclose]
      exact line_interiorMarks _ multiline members
    show ReadsType _ (.struct _ (multiline || !members.isEmpty))
    rw [← hflag]
    exact .struct ht hu hread hv

theorem readsField_of_glances {name : Option (List Char)} {x : TypeExpr} : ProperField name x →
    ∀ {tag : Option (List Char)} {p : Spot} {us : List Token},
      us.map Token.glance = p.emitAll (fieldMarks name x.marks tag) →
      ReadsField us name x.canonical tag
  | .named hname h, tag, _, _, hus => by
    obtain ⟨t, _, rfl, ⟨ht, _⟩, hus⟩ := exists_token (.inr rfl) hus
    obtain ⟨typeTokens, tagTokens, rfl, htypes, htags⟩ := exists_append hus
    exact .named ht (isWord_of_isIdentifier hname).2 (readsType_of_glances h htypes)
      (readsTag_of_glances tag htags)
  | .embedded h, tag, _, _, hus => by
    obtain ⟨nameTokens, tagTokens, rfl, hnames, htags⟩ := exists_append hus
    exact .embedded (readsName_of_glances h hnames) (readsTag_of_glances tag htags)
  | .pointer h, tag, _, _, hus => by
    obtain ⟨t, _, rfl, ⟨ht, _⟩, hus⟩ := exists_token (.inr rfl) hus
    obtain ⟨typeTokens, tagTokens, rfl, htypes, htags⟩ := exists_append hus
    exact .pointer ht (readsType_of_glances h htypes) (readsTag_of_glances tag htags)

theorem readsMembers_of_glances {ms : List Member} : ProperMembers ms →
    ∀ {first : Bool} {p : Spot} {us : List Token}, p.due = false → p.newlines = 1 →
      us.map Token.glance = p.emitAll (bodyMarks first (memberMarks ms)) →
      ReadsMembers us (canonicalMembers first ms)
  | .nil, _, _, _, _, _, hus => by
    cases eq_nil_of_glances hus
    exact .nil
  | @ProperMembers.comment newlines text more _ h, first, p, us, hdue, hnewlines, hus => by
    obtain ⟨q, hq, hgap, hemit⟩ := exists_gap hdue hnewlines first newlines
    have hline : us.map Token.glance =
        q.emitAll (commentMark text :: .feed :: bodyMarks false (memberMarks more)) :=
      hus.trans (hemit _)
    obtain ⟨t, us', rfl, ⟨ht, htNewlines, _⟩, hus⟩ := exists_token (.inl hq) hline
    rw [emitAll_feed rfl] at hus
    have hread := ReadsMembers.comment ht (readsMembers_of_glances h rfl rfl hus)
    rw [htNewlines, hgap] at hread
    exact hread
  | @ProperMembers.field newlines name x tag comment more hfield htag _ h, first, p, us, hdue,
      hnewlines, hus => by
    obtain ⟨q, hq, hgap, hemit⟩ := exists_gap hdue hnewlines first newlines
    have hline : us.map Token.glance = q.emitAll
        ((fieldMarks name x.marks tag ++ comment.toList.map commentMark) ++
          .feed :: bodyMarks false (memberMarks more)) := hus.trans (hemit _)
    rw [List.append_assoc] at hline
    obtain ⟨fieldTokens, us', rfl, hfields, hend⟩ := exists_append hline
    have hread := readsField_of_glances hfield hfields
    have hcloses : Closes (fieldMarks name x.marks tag) :=
      closes_fieldMarks (closes_type hfield.properType) tag
    obtain ⟨hdueField, hnewlinesField⟩ := hcloses.spot q
    obtain ⟨k, others, hmarks, hk⟩ := fieldMarks_cons hfield tag
    rw [hmarks] at hfields
    obtain ⟨t, ts, rfl, ⟨_, htNewlines, _⟩, _⟩ := exists_token (.inr hk) hfields
    rw [hgap] at htNewlines
    cases comment with
    | none =>
      obtain ⟨us', hafter, hothers⟩ := exists_afterDue_feed hend
      rw [hdueField] at hafter
      obtain ⟨semicolon, rfl, hsemicolon⟩ := hafter
      have hbreaks : ((q.passAll (fieldMarks name x.marks tag)).pass .feed).newlines = 1 :=
        congrArg (· + 1) hnewlinesField
      have hmore := ReadsMembers.field hread hsemicolon
        (noTrailingComment_of_glances rfl hbreaks hothers)
        (readsMembers_of_glances h rfl hbreaks hothers)
      rw [htNewlines] at hmore
      exact hmore
    | some text =>
      obtain ⟨u, us', hafter, ⟨hu, huNewlines⟩, hothers⟩ := exists_afterDue_comment hend
      rw [hdueField] at hafter
      obtain ⟨semicolon, rfl, hsemicolon⟩ := hafter
      have hmore := ReadsMembers.commented hread hsemicolon hu (huNewlines.trans hnewlinesField)
        (readsMembers_of_glances h rfl rfl (hothers.trans (emitAll_feed rfl _)))
      rw [htNewlines] at hmore
      exact hmore

end

/-! ## Files -/

/-- After the marks that separate an item no semicolon is due, and the line breaks are those of the
canonical item. -/
theorem exists_separator {before : List Item} {item : Item} {after : List Item}
    {p : Spot} (hp : p.newlines = 0) {ms : List Mark} {us : List Token}
    (hus : us.map Token.glance =
      p.emitAll (separatorMarks before item after ++ (item.marks ++ ms))) :
    ∃ (us' : List Token) (q : Spot), AfterDue p.due us us' ∧
      us'.map Token.glance = q.emitAll (item.marks ++ ms) ∧
      q.due = false ∧ q.newlines = itemNewlines before item after := by
  unfold separatorMarks at hus
  unfold itemNewlines
  split at hus
  · next hshares =>
    -- the comment shares the line, and a semicolon that is due is inserted before it
    obtain ⟨newlines, decl⟩ := item
    rw [if_pos hshares]
    cases decl with
    | comment text =>
      let q : Spot := { p with due := false }
      have hemit : p.emitAll (commentMark text :: ms) =
          p.insertion (p.line + (Text.trimEnd text).count '\n') ++
            q.emitAll (commentMark text :: ms) := List.append_assoc _ _ _
      obtain ⟨us', hafter, hus'⟩ := exists_afterDue_insertion (hus.trans hemit)
      exact ⟨us', q, hafter, hus', rfl, hp⟩
    | package name => cases hshares
    | type name x => cases hshares
  · next hshares =>
    rw [if_neg hshares]
    split at hus
    · next hblank =>
      rw [if_pos hblank]
      obtain ⟨us', hafter, hus'⟩ := exists_afterDue_feed hus
      exact ⟨us', _, hafter, hus'.trans (emitAll_feed rfl _), rfl, congrArg (· + 2) hp⟩
    · next hblank =>
      rw [if_neg hblank]
      obtain ⟨us', hafter, hus'⟩ := exists_afterDue_feed hus
      exact ⟨us', _, hafter, hus', rfl, congrArg (· + 1) hp⟩

theorem ends_of_afterDue {us us' : List Token} {due : Bool} (h : AfterDue due us us')
    (hdue : due = true) : Ends us us' := by
  rw [hdue] at h
  obtain ⟨u, rfl, hu⟩ := h
  exact .semicolon hu

/-- The tokens of an item are read as the canonical item, if those after it are read. -/
theorem readsItem_of_glances {packaged : Bool} {item : Item} {after more : List Item}
    (h : ProperItems packaged (item :: after)) {p : Spot} (hp : p.due = false) {ms : List Mark}
    {us : List Token} (hus : us.map Token.glance = p.emitAll (item.marks ++ ms))
    (hafter : ∀ {packaged' : Bool}, ProperItems packaged' after → ∀ {q : Spot} {vs : List Token},
      q.newlines = 0 → vs.map Token.glance = q.emitAll ms →
      ∃ ws, AfterDue q.due vs ws ∧ ReadsItems packaged' ws more) :
    ReadsItems packaged us (⟨p.newlines, item.decl.canonical⟩ :: more) := by
  cases h with
  | comment htext _ hmore =>
    obtain ⟨t, us', rfl, ⟨ht, hnewlines, _⟩, hus⟩ := exists_token (.inl hp) hus
    obtain ⟨_, rfl, hread⟩ := hafter hmore rfl hus
    rw [← hnewlines]
    exact .comment ht hread
  | @package _ name _ hname hmore =>
    obtain ⟨t, _, rfl, ⟨ht, hnewlines, _⟩, hus⟩ := exists_token (.inr rfl) hus
    obtain ⟨u, us', rfl, ⟨hu, _⟩, hus⟩ := exists_token (.inr rfl) hus
    have hdue := endsStatement_word (isWord_of_isPackageName hname).2
    obtain ⟨ws, hends, hread⟩ := hafter hmore rfl hus
    rw [← hnewlines]
    exact .package ht hu hname (ends_of_afterDue hends hdue) hread
  | @type _ name x _ hname htype hmore =>
    obtain ⟨t, _, rfl, ⟨ht, hnewlines, _⟩, hus⟩ := exists_token (.inr rfl) hus
    obtain ⟨u, us', rfl, ⟨hu, _⟩, hus⟩ := exists_token (.inr rfl) hus
    obtain ⟨typeTokens, _, rfl, htypes, hus⟩ := exists_append hus
    obtain ⟨hdue, hnone⟩ := (closes_type htype).spot
      ((p.pass (.token (.word "type".toList))).pass (.token (.word name)))
    obtain ⟨ws, hends, hread⟩ := hafter hmore hnone hus
    rw [← hnewlines]
    exact .type ht hu (isWord_of_isIdentifier hname).2 (readsType_of_glances htype htypes)
      (ends_of_afterDue hends hdue) hread

/-- The tokens of the items after the first are read as the canonical items, after the semicolon
that ends the item before. -/
theorem readsItems_of_glances {packaged : Bool} {items : List Item} (h : ProperItems packaged items)
    {before : List Item} {p : Spot} (hp : p.newlines = 0) {us : List Token}
    (hus : us.map Token.glance = p.emitAll (itemsMarks before items ++ [.feed])) :
    ∃ us', AfterDue p.due us us' ∧ ReadsItems packaged us' (canonicalItems before items) := by
  induction items generalizing packaged before p us with
  | nil =>
    obtain ⟨us', hafter, hus'⟩ := exists_afterDue_feed hus
    cases eq_nil_of_glances hus'
    cases h
    exact ⟨[], hafter, .nil⟩
  | cons item after ih =>
    have hmarks : itemsMarks before (item :: after) ++ [.feed] = separatorMarks before item after ++
        (item.marks ++ (itemsMarks (item :: before) after ++ [.feed])) := by
      rw [itemsMarks, List.append_assoc, List.append_assoc]
    rw [hmarks] at hus
    obtain ⟨us', q, hafter, hus', hdue, hnewlines⟩ := exists_separator hp hus
    have hread := readsItem_of_glances h hdue hus' fun hmore _ _ hq hvs => ih hmore hq hvs
    rw [hnewlines] at hread
    exact ⟨us', hafter, hread⟩

/-- The layout of a proper file is read as the canonical file. -/
theorem readFile_fileText {items : List Item} (h : ProperItems false items) :
    readFile (fileText items) = .ok (canonicalFile items) := by
  obtain ⟨r, hr, hglances⟩ := scan_of_cuts (cuts_fileText h)
  refine readFile_eq_ok_iff.mpr ⟨r, hr, ?_⟩
  cases items with
  | nil => cases h
  | cons item rest =>
    have hmarks : fileMarks (item :: rest) = (item.marks ++ itemsMarks [item] rest) ++ [.feed] :=
      (List.append_assoc _ _ _).symm
    -- the text ends with a line break, after which no semicolon is due
    have hend : Spot.initial.emitText (fileMarks (item :: rest)) =
        Spot.initial.emitAll (fileMarks (item :: rest)) := by
      unfold Spot.emitText Spot.insertion
      rw [hmarks, Spot.passAll_append]
      exact List.append_nil _
    exact readsItem_of_glances h rfl (hglances.trans hend)
      fun hmore _ _ hq hvs => readsItems_of_glances hmore hq hvs

end SchemaToGo.Go
