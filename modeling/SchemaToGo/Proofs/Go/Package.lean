import SchemaToGo.Proofs.Go.File.Canonical
import SchemaToGo.Proofs.Go.File.Parse
import SchemaToGo.Proofs.Go.Reading
set_option autoImplicit false

/-!
# The package clause

The name of the package stands in the third line of a rendered file and decides about nothing else:
`render_repackaged`.  After the line of the clause the scanner is in the same state whatever the
name is, the parser goes on with the same tokens, and the layout of an item depends only on what
kind of items stand before it.
-/

namespace SchemaToGo.Go

/-! ## Behind the clause -/

/-- The text of declarations without the lines before them. -/
def declarationsText (d : Declarations) : List Char :=
  d.aliases.values.flatMap aliasText ++ d.structs.values.flatMap structDeclText

theorem plainText_eq_prologue (d : Declarations) (package : List Char) :
    plainText d package = linesText (prologueLines package) ++ declarationsText d := by
  have hprologue : linesText (prologueLines package) =
      line generatedMarker.toList ++ line [] ++ line ("package ".toList ++ package) := by
    simp [linesText, prologueLines, commentLine, lineText, Piece.text, Kind.spelling, line]
  unfold plainText declarationsText
  rw [hprologue, List.append_assoc]

/-- Lines are scanned before the rest of a text. -/
theorem scanFrom_linesText (s : ScanState) {lines : List (List Piece)}
    (h : ∀ ps ∈ lines, LineFits ps) (rest : List Char) :
    scanFrom s (linesText lines ++ rest) =
      Scanned.after (s.emitLines lines) (scanFrom (s.passLines lines) rest) := by
  induction lines generalizing s with
  | nil => exact (Scanned.after_nil _).symm
  | cons ps more ih =>
    have htext : linesText (ps :: more) ++ rest =
        lineText ps ++ '\n' :: (linesText more ++ rest) := by
      unfold linesText
      rw [List.flatMap_cons, List.append_assoc, List.append_assoc, List.singleton_append]
    have hmore := ih (s.passLine ps) fun ps' hps' => h ps' (List.mem_cons_of_mem _ hps')
    rw [htext, scanFrom_line s (h ps List.mem_cons_self)]
    show Scanned.after (s.emitLine ps) (scanFrom (s.passLine ps) _) = _
    rw [hmore, Scanned.after_after]
    rfl

namespace ScanState

/-- After the line of the package clause. -/
def packaged : ScanState := ⟨⟨4, 1⟩, 1, false⟩

/-- The name of the package leaves no trace behind the line of its clause. -/
theorem passLines_prologueLines {package : List Char} (h : isWord package = true) :
    initial.passLines (prologueLines package) = packaged := by
  have hline : (Place.advance ⟨3, 9⟩ package).line = 3 := by
    rw [Place.line_advance, List.count_eq_zero.mpr (feed_not_mem_of_isWord h)]
  show endLine ⟨Place.advance ⟨3, 9⟩ package, 0, _⟩ = _
  unfold endLine Place.after
  rw [if_pos rfl, hline]
  rfl

end ScanState

/-- The first token of a text knows the line breaks before the text, if no semicolon is due. -/
theorem newlines_le_of_scanFrom {s : ScanState} (hs : s.due = false) {t : List Char} {r : Scanned}
    (h : scanFrom s t = .ok r) : ∀ u ∈ r.tokens.head?, s.newlines ≤ u.newlines := by
  obtain ⟨ms, hms⟩ := exists_cuts h
  obtain ⟨ts, s', hscan, hts, hs'⟩ := scanFrom_of_cuts hms s
  rw [hscan, scanFrom] at h
  cases h
  have hglances : (ts ++ s'.insertion s'.place).map Token.glance = s.spot.emitText ms := by
    have hline : s'.place.line = (s.spot.passAll ms).line := congrArg Spot.line hs'
    rw [List.map_append, hts, s'.map_glance_insertion, hs', hline]
    rfl
  intro u hu
  have hfirst : u.glance ∈ (s.spot.emitText ms).head? := by
    rw [← hglances, List.head?_map]
    exact Option.mem_map_of_mem _ hu
  exact Spot.newlines_le_of_head?_emitText (p := s.spot) hs u.glance hfirst

/-- The text of the declarations is read as the items, behind a package clause. -/
def SaysItems (d : Declarations) (items : List Item) : Prop :=
  ∃ r, scanFrom .packaged (declarationsText d) = .ok r ∧ ReadsItems true r.tokens items

/-- The first item starts a line. -/
theorem SaysItems.newlines_pos {d : Declarations} {items : List Item} (h : SaysItems d items) :
    ∀ item ∈ items.head?, 0 < item.newlines := by
  obtain ⟨r, hscan, hreads⟩ := h
  intro item hitem
  have hnewlines := newlines_of_readsItems hreads
  rw [Option.mem_def.mp hitem] at hnewlines
  obtain ⟨u, hu, heq⟩ := Option.map_eq_some_iff.mp hnewlines.symm
  rw [← heq]
  exact newlines_le_of_scanFrom rfl hscan u hu

/-- The text of the declarations is read in one way only. -/
theorem SaysItems.unique {d : Declarations} {items items' : List Item} (h : SaysItems d items)
    (h' : SaysItems d items') : items = items' := by
  obtain ⟨r, hscan, hreads⟩ := h
  obtain ⟨r', hscan', hreads'⟩ := h'
  cases hscan.symm.trans hscan'
  have hok : Parse.items r.finish _ true r.tokens = .ok items :=
    (Parse.items_eq_ok_iff (Nat.le_refl _)).mpr hreads
  have hok' : Parse.items r.finish _ true r.tokens = .ok items' :=
    (Parse.items_eq_ok_iff (Nat.le_refl _)).mpr hreads'
  exact Except.ok.inj (hok.symm.trans hok')

/-- The items of a file: the marker, the package clause and those of the declarations. -/
def packagedItems (package : List Char) (items : List Item) : List Item :=
  ⟨0, .comment generatedMarker.toList⟩ :: ⟨2, .package package⟩ :: items

/-- Whether and as what declarations are read does not depend on the package. -/
theorem readFile_plainText_iff {d : Declarations} {package : List Char}
    (hpackage : isPackageName package = true) {items : List Item} :
    readFile (plainText d package) = .ok items ↔
      ∃ more, SaysItems d more ∧ items = packagedItems package more := by
  have hword := (isWord_of_isPackageName hpackage).1
  have hscan : scan (plainText d package) =
      Scanned.after (ScanState.initial.emitLines (prologueLines package))
        (scanFrom .packaged (declarationsText d)) := by
    rw [← ScanState.passLines_prologueLines hword, plainText_eq_prologue]
    exact scanFrom_linesText _ (lineFits_prologueLines hword) _
  unfold readFile SaysItems
  rw [hscan]
  cases hrest : scanFrom .packaged (declarationsText d) with
  | error e =>
    constructor
    · exact fun h => nomatch h
    · rintro ⟨_, ⟨_, hr, _⟩, _⟩
      cases hr
  | ok r =>
    obtain ⟨n, hn, hitems⟩ := Parse.items_prologueLines r.finish hpackage (Nat.le_refl
      (ScanState.initial.emitLines (prologueLines package) ++ r.tokens).length)
    have hreads : ∀ more, Parse.items r.finish n true r.tokens = .ok more ↔
        ReadsItems true r.tokens more := fun _ => Parse.items_eq_ok_iff hn
    show Parse.items r.finish _ false (ScanState.initial.emitLines _ ++ r.tokens) = _ ↔ _
    rw [hitems]
    constructor
    · intro h
      cases hmore : Parse.items r.finish n true r.tokens with
      | error e => rw [hmore] at h; cases h
      | ok more =>
        rw [hmore] at h
        cases h
        exact ⟨more, ⟨r, rfl, (hreads more).mp hmore⟩, rfl⟩
    · rintro ⟨more, ⟨_, hr, hmore⟩, rfl⟩
      cases hr
      rw [(hreads more).mpr hmore]
      rfl

/-! ## Layout behind the clause -/

section

variable {before before' : List Item}

theorem separator_alike (h : List.Forall₂ Item.Alike before before') (item : Item)
    (after : List Item) : separator before item after = separator before' item after := by
  have hblank : needsBlankLine before item after = needsBlankLine before' item after := by
    unfold needsBlankLine
    rw [head?_alike h, find?_alike h]
  unfold separator
  rw [hblank]

/-- Items are laid out by what kind of items stand before them. -/
theorem itemsText_alike (h : List.Forall₂ Item.Alike before before') (items : List Item) :
    itemsText before items = itemsText before' items := by
  induction items generalizing before before' with
  | nil => rfl
  | cons item after ih =>
    rw [itemsText, itemsText, separator_alike h, ih (.cons ⟨rfl, rfl, rfl⟩ h)]

/-- An item that starts a line is laid out on a line of its own. -/
theorem exists_feed_itemsText {items : List Item}
    (h : ∀ item ∈ items.head?, 0 < item.newlines) :
    ∃ rest, itemsText before items ++ ['\n'] = '\n' :: rest := by
  cases items with
  | nil => exact ⟨[], rfl⟩
  | cons item after =>
    have hpos := h item rfl
    have hsame : (item.isComment && item.newlines == 0) = false := by
      rw [beq_eq_false_iff_ne.mpr (Nat.ne_of_gt hpos), Bool.and_false]
    rw [itemsText, separator, hsame]
    split
    · next hshares => cases hshares
    · split
      · exact ⟨_, rfl⟩
      · exact ⟨_, rfl⟩

end

/-- The lines before the declarations of a laid out file. -/
def prologueText (package : String) : String := generatedMarker ++ "\n\npackage " ++ package ++ "\n"

/-- The text behind the package clause is the same in every package. -/
theorem exists_fileText_packagedItems {items : List Item}
    (h : ∀ item ∈ items.head?, 0 < item.newlines) : ∃ rest : List Char, ∀ package : String,
      fileText (packagedItems package.toList items) = (prologueText package).toList ++ rest := by
  let clause : Item := ⟨2, .package []⟩
  let marker : Item := ⟨0, .comment generatedMarker.toList⟩
  -- a clause without a name is as good as any for what stands behind it
  obtain ⟨rest, hrest⟩ := @exists_feed_itemsText [clause, marker] items h
  refine ⟨rest, fun package => ?_⟩
  have halike : List.Forall₂ Item.Alike [⟨2, .package package.toList⟩, marker] [clause, marker] :=
    .cons ⟨rfl, rfl, rfl⟩ (.cons ⟨rfl, rfl, rfl⟩ .nil)
  have hmarker : marker.text = generatedMarker.toList := by decide +kernel
  show marker.text ++ ('\n' :: '\n' :: ("package ".toList ++ package.toList) ++ itemsText _ items) ++
    ['\n'] = _
  have hclause : "\n\npackage ".toList = '\n' :: '\n' :: "package ".toList := by decide
  rw [itemsText_alike halike, hmarker]
  unfold prologueText
  simp only [String.toList_append, List.append_assoc]
  rw [hrest, hclause]
  simp

/-! ## Rendering in two packages -/

theorem render_eq_ok_iff {d : Declarations} {package : String}
    (hpackage : isPackageName package.toList = true) {t : String} :
    render d package = .ok t ↔ ∃ items, SaysItems d items ∧
      t = String.ofList (fileText (packagedItems package.toList items)) := by
  have hformat : render d package = .ok t ↔
      format (String.ofList (plainText d package.toList)) = .ok t := by
    unfold render
    rw [if_pos hpackage]
    dsimp only
    cases format (String.ofList (plainText d package.toList)) with
    | error e => exact iff_of_false (fun h => nomatch h) (fun h => nomatch h)
    | ok t' => simp only [Except.ok.injEq]
  rw [hformat, format_eq_ok_iff, String.toList_ofList]
  constructor
  · rintro ⟨_, hread, rfl⟩
    obtain ⟨items, hitems, rfl⟩ := (readFile_plainText_iff hpackage).mp hread
    exact ⟨items, hitems, rfl⟩
  · rintro ⟨items, hitems, rfl⟩
    exact ⟨_, (readFile_plainText_iff hpackage).mpr ⟨items, hitems, rfl⟩, rfl⟩

theorem splitAll_line {text : List Char} (h : '\n' ∉ text) (rest : List Char) :
    Text.splitAll (· = '\n') (text ++ '\n' :: rest) = text :: Text.splitAll (· = '\n') rest := by
  have hplain : ∀ c ∈ text, decide (c = '\n') = false := by
    intro c hc
    refine decide_eq_false fun heq => h ?_
    rwa [← heq]
  exact Text.splitAll_append_cons hplain (by decide) rest

/-- The package clause is the third line. -/
theorem splitAll_prologueText {package : String} (hpackage : isPackageName package.toList = true)
    (rest : List Char) :
    Text.splitAll (· = '\n') ((prologueText package).toList ++ rest) =
      generatedMarker.toList :: [] :: ("package " ++ package).toList ::
        Text.splitAll (· = '\n') rest := by
  have htext : (prologueText package).toList ++ rest =
      generatedMarker.toList ++ '\n' :: ([] ++ '\n' :: (("package " ++ package).toList ++
        '\n' :: rest)) := by
    have hclause : "\n\npackage ".toList = '\n' :: '\n' :: "package ".toList := by decide
    unfold prologueText
    simp [hclause]
  have hfeed : '\n' ∉ ("package " ++ package).toList := by
    rw [String.toList_append, List.mem_append]
    exact not_or.mpr ⟨by decide, feed_not_mem_of_isWord (isWord_of_isPackageName hpackage).1⟩
  rw [htext, splitAll_line (by decide +kernel), splitAll_line List.not_mem_nil, splitAll_line hfeed]

/-- In which package declarations are rendered changes nothing but the name in the third line. -/
theorem render_repackaged {d : Declarations} {p q : String}
    (hp : isPackageName p.toList = true) (hq : isPackageName q.toList = true) :
    ((∃ t, render d p = .ok t) ↔ ∃ u, render d q = .ok u) ∧
    ∀ t u, render d p = .ok t → render d q = .ok u →
      (∃ rest, t = prologueText p ++ rest ∧ u = prologueText q ++ rest) ∧
      (Text.splitAll (· = '\n') t.toList)[2]? = some ("package " ++ p).toList ∧
      Text.splitAll (· = '\n') u.toList =
        (Text.splitAll (· = '\n') t.toList).set 2 ("package " ++ q).toList := by
  constructor
  · simp only [render_eq_ok_iff hp, render_eq_ok_iff hq]
    constructor
    · rintro ⟨_, items, hitems, _⟩
      exact ⟨_, items, hitems, rfl⟩
    · rintro ⟨_, items, hitems, _⟩
      exact ⟨_, items, hitems, rfl⟩
  · intro t u ht hu
    obtain ⟨items, hitems, rfl⟩ := (render_eq_ok_iff hp).mp ht
    obtain ⟨items', hitems', rfl⟩ := (render_eq_ok_iff hq).mp hu
    obtain rfl := hitems.unique hitems'
    obtain ⟨rest, hrest⟩ := exists_fileText_packagedItems hitems.newlines_pos
    rw [hrest, hrest, String.toList_ofList, String.toList_ofList, splitAll_prologueText hp,
      splitAll_prologueText hq]
    refine ⟨⟨String.ofList rest, ?_, ?_⟩, rfl, rfl⟩
    · rw [String.ofList_append, String.ofList_toList]
    · rw [String.ofList_append, String.ofList_toList]

/-- An alias, and together with another one of which the name is a keyword. -/
theorem render_repackaged_keyword :
    let aliases : Dict Alias := (∅ : Dict Alias).insert "A" ⟨"A", "string"⟩
    let bad : Declarations := ⟨∅, aliases.insert "B" ⟨"type", "string"⟩⟩
    isPackageName "main".toList = true ∧ isPackageName "x2".toList = true ∧
    (¬ ∃ t, render bad "main" = .ok t) ∧ (¬ ∃ t, render bad "x2" = .ok t) ∧
    ∃ t u, render ⟨∅, aliases⟩ "main" = .ok t ∧ render ⟨∅, aliases⟩ "x2" = .ok u ∧
      Text.splitAll (· = '\n') u.toList =
        (Text.splitAll (· = '\n') t.toList).set 2 "package x2".toList := by
  intro aliases bad
  have hp : isPackageName "main".toList = true := by decide
  have hq : isPackageName "x2".toList = true := by decide
  have hbad : ¬ ∃ t, render bad "main" = .ok t := by
    have hnone : (render bad "main").toOption = none := by decide +kernel
    rintro ⟨t, ht⟩
    rw [ht] at hnone
    cases hnone
  have hgood : ∃ t, render ⟨∅, aliases⟩ "main" = .ok t := exists_eq_ok (by decide +kernel)
  obtain ⟨u, hu⟩ := (render_repackaged hp hq).1.mp hgood
  obtain ⟨t, ht⟩ := hgood
  refine ⟨hp, hq, hbad, fun h => hbad ((render_repackaged hp hq).1.mpr h), t, u, ht, hu, ?_⟩
  exact ((render_repackaged hp hq).2 t u ht hu).2.2

end SchemaToGo.Go
