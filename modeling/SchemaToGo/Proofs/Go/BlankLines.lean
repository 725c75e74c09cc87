import SchemaToGo.Proofs.Go.Format
set_option autoImplicit false

/-!
# Blank lines

The layout of a file keeps the blank lines between items, at most one at a place, and adds those
that set declarations off: one between the package clause and the first declaration, and one above
the comments that document a declaration.  A comment that shares the line of the item above keeps
the blank line from being added, and nothing else does: `blankLines_of_format`.

A formatted text says a file that is its own canonical form.  So the line breaks before every item
are those that the layout gives it: `newlines_of_canonicalFile`.

SPEC_FULL.md section 4.4 has a blank line above the first declaration in all cases; the comment on
the clause's line is the exception to it.
-/

namespace SchemaToGo.Go

/-! ## Canonical files -/

/-- Every item after the first has the line breaks of the layout. -/
theorem newlines_of_canonicalItems {items before : List Item}
    (h : canonicalItems before items = items) :
    ∀ (front : List Item) (item : Item) (after : List Item), items = front ++ item :: after →
      item.newlines = itemNewlines (front.reverse ++ before) item after := by
  induction items generalizing before with
  | nil => intro front item after heq; simp at heq
  | cons next rest ih =>
    intro front item after heq
    obtain ⟨hnext, hrest⟩ := List.cons.inj h
    cases front with
    | nil =>
      cases heq
      exact (congrArg Item.newlines hnext).symm
    | cons _ front =>
      cases heq
      have := ih hrest front item after rfl
      rw [List.reverse_cons, List.append_assoc]
      exact this

/-- The first item of a canonical file starts the text. -/
theorem newlines_head_of_canonicalFile {item : Item} {rest : List Item}
    (h : canonicalFile (item :: rest) = item :: rest) : item.newlines = 0 :=
  (congrArg Item.newlines (List.cons.inj h).1).symm

/-- In a canonical file every item after the first has the line breaks of the layout. -/
theorem newlines_of_canonicalFile {items : List Item} (h : canonicalFile items = items)
    {before : List Item} {item : Item} {after : List Item} (hbefore : before ≠ [])
    (hitems : items = before ++ item :: after) :
    item.newlines = itemNewlines before.reverse item after := by
  cases before with
  | nil => exact absurd rfl hbefore
  | cons first front =>
    subst hitems
    rw [List.reverse_cons]
    exact newlines_of_canonicalItems (List.cons.inj h).2 front item after rfl

/-- An item that needs a blank line has it, if it does not share the line of the item before. -/
theorem two_le_of_needsBlankLine {items : List Item} (h : canonicalFile items = items)
    {before : List Item} {item : Item} {after : List Item} (hbefore : before ≠ [])
    (hitems : items = before ++ item :: after)
    (hline : item.isComment = true → item.newlines ≠ 0)
    (hneeds : needsBlankLine before.reverse item after = true) : 2 ≤ item.newlines := by
  have hnewlines := newlines_of_canonicalFile h hbefore hitems
  unfold itemNewlines at hnewlines
  rw [hneeds, Bool.or_true, if_pos rfl] at hnewlines
  split at hnewlines
  · next hshares =>
    rw [Bool.and_eq_true, beq_iff_eq] at hshares
    exact absurd hshares.2 (hline hshares.1)
  · exact Nat.le_of_eq hnewlines.symm

/-- A formatted text says a canonical file, and is its layout. -/
theorem exists_canonicalFile_of_format {s t : String} (h : format s = .ok t) :
    ∃ items, readFile t.toList = .ok items ∧ t.toList = fileText items ∧
      canonicalFile items = items ∧ ProperItems false items := by
  obtain ⟨its, hread, rfl⟩ := format_eq_ok_iff.mp h
  have hproper := properItems_of_readFile hread
  have hagain := readFile_fileText hproper
  have hproper' := properItems_of_readFile hagain
  have hlayout := fileText_canonicalFile hproper
  have hfixed := readFile_fileText hproper'
  rw [hlayout, hagain] at hfixed
  rw [String.toList_ofList]
  exact ⟨canonicalFile its, hagain, hlayout.symm, (Except.ok.inj hfixed).symm, hproper'⟩

/-! ## Declarations that are set off -/

/-- Neither a package clause nor a declaration is a comment. -/
theorem Item.isComment_eq_false {item : Item} (h : item.isPackage = true ∨ item.isType = true) :
    item.isComment = false := by
  obtain ⟨_, decl⟩ := item
  cases decl with
  | comment text => rcases h with h | h <;> cases h
  | package name => rfl
  | type name x => rfl

/-- Comments, each on the line below the one before, and a type declaration on the line below the
last one. -/
structure Documents (first : Item) (more : List Item) (decl : Item) : Prop where
  comments : ∀ c ∈ first :: more, c.isComment = true
  type : decl.isType = true
  below : ∀ i ∈ more ++ [decl], i.newlines = 1

theorem documentsType_of_below {more : List Item} {decl : Item} (after : List Item)
    (hcomments : ∀ c ∈ more, c.isComment = true) (htype : decl.isType = true)
    (hbelow : ∀ i ∈ more ++ [decl], i.newlines = 1) :
    documentsType (more ++ decl :: after) = true := by
  induction more with
  | nil =>
    have hcomment := Item.isComment_eq_false (.inr htype)
    have hone := hbelow decl (by simp)
    simp [documentsType, hcomment, htype, hone]
  | cons c more ih =>
    have hone := hbelow c (by simp)
    have hrest := ih (fun x hx => hcomments x (List.mem_cons_of_mem _ hx))
      fun i hi => hbelow i (List.mem_cons_of_mem _ hi)
    simp [documentsType, hcomments c List.mem_cons_self, hone, hrest]

/-- Between the package clause and the first declaration after it stands a blank line, unless a
comment shares the line of the clause. -/
def ClauseSetOff (items : List Item) : Prop :=
  ∀ (before : List Item) (clause : Item) (between : List Item) (decl : Item) (after : List Item),
    items = before ++ clause :: (between ++ decl :: after) → clause.isPackage = true →
    (∀ c ∈ between, c.isComment = true) → decl.isType = true →
    (∃ i ∈ between ++ [decl], 2 ≤ i.newlines) ∨ ∃ c ∈ between.head?, c.newlines = 0

/-- A blank line stands directly above the comments that document a declaration, unless a comment
shares the line of the item above them.  The comments are all there are: the first one is on a line
of its own, and no comment with a line of its own stands directly above it. -/
def GroupsSetOff (items : List Item) : Prop :=
  ∀ (before : List Item) (first : Item) (more : List Item) (decl : Item) (after : List Item),
    items = before ++ first :: (more ++ decl :: after) → Documents first more decl →
    first.newlines ≠ 0 →
    (∀ above ∈ before.getLast?, above.isComment = true → first.newlines = 1 → above.newlines = 0) →
    2 ≤ first.newlines ∨ ∃ above ∈ before.getLast?, above.isComment = true ∧ above.newlines = 0

section

variable {items before : List Item} {item : Item} {after : List Item}

/-- The items behind some others are proper too. -/
theorem ProperItems.of_append {packaged : Bool} (h : ProperItems packaged (before ++ items)) :
    ∃ packaged', ProperItems packaged' items := by
  induction before generalizing packaged with
  | nil => exact ⟨packaged, h⟩
  | cons _ before ih =>
    obtain ⟨_, htail⟩ := h.tail
    exact ih htail

/-- Behind comments every item starts a line. -/
theorem ProperItems.newlines_pos_of_comments {packaged : Bool} {first : Item} {more : List Item}
    {last : Item} (h : ProperItems packaged (first :: (more ++ last :: after)))
    (hcomments : ∀ c ∈ first :: more, c.isComment = true) :
    ∀ i ∈ more ++ [last], 0 < i.newlines := by
  induction more generalizing packaged first with
  | nil =>
    intro i hi
    rw [List.nil_append, List.mem_singleton] at hi
    exact h.newlines_pos (hcomments first List.mem_cons_self) i (by rw [hi]; rfl)
  | cons c more ih =>
    intro i hi
    obtain ⟨_, htail⟩ := h.tail
    rcases List.mem_cons.mp hi with rfl | hi
    · exact h.newlines_pos (hcomments first List.mem_cons_self) i rfl
    · exact ih htail (fun x hx => hcomments x (List.mem_cons_of_mem _ hx)) i hi

/-- The comments that document a declaration need a blank line, unless they follow a comment. -/
theorem needsBlankLine_of_documents {first : Item} {more : List Item} {decl : Item}
    (h : Documents first more decl) (after : List Item)
    (habove : ∀ above ∈ before.getLast?, above.isComment = false) :
    needsBlankLine before.reverse first (more ++ decl :: after) = true := by
  have hnone : before.getLast?.any Item.isComment = false := by
    cases hlast : before.getLast? with
    | none => rfl
    | some above => exact habove above hlast
  have hdocuments := documentsType_of_below after
    (fun c hc => h.comments c (List.mem_cons_of_mem _ hc)) h.type h.below
  have hfirst := h.comments first List.mem_cons_self
  obtain ⟨_, decl⟩ := first
  cases decl with
  | comment => simp [needsBlankLine, List.head?_reverse, hnone, hdocuments]
  | _ => cases hfirst

/-- A declaration right after the package clause needs a blank line. -/
theorem needsBlankLine_of_clause {clause : Item} (hclause : clause.isPackage = true)
    (hitem : item.isType = true) :
    needsBlankLine (before ++ [clause]).reverse item after = true := by
  have hcomment := Item.isComment_eq_false (.inl hclause)
  obtain ⟨_, decl⟩ := item
  cases decl with
  | type => simp [needsBlankLine, hcomment, hclause]
  | _ => cases hitem

theorem clauseSetOff_of_canonicalFile {packaged : Bool} (h : canonicalFile items = items)
    (hproper : ProperItems packaged items) : ClauseSetOff items := by
  intro before clause between decl after hitems hclause hbetween hdecl
  have hne : before ++ [clause] ≠ [] := by simp
  cases between with
  | nil =>
    have hsplit : items = (before ++ [clause]) ++ decl :: after := by simp [hitems]
    have hnone := Item.isComment_eq_false (.inr hdecl)
    have htwo := two_le_of_needsBlankLine h hne hsplit (by simp [hnone])
      (needsBlankLine_of_clause hclause hdecl)
    exact .inl ⟨decl, by simp, htwo⟩
  | cons first more =>
    by_cases hshares : first.newlines = 0
    · exact .inr ⟨first, rfl, hshares⟩
    by_contra hnone
    rw [not_or, not_exists] at hnone
    have hfew : ∀ i ∈ (first :: more) ++ [decl], i.newlines < 2 :=
      fun i hi => Nat.lt_of_not_le fun htwo => hnone.1 i ⟨hi, htwo⟩
    have hsplit : items = (before ++ [clause]) ++ first :: (more ++ decl :: after) := by
      simp [hitems]
    obtain ⟨_, htail⟩ := (hsplit ▸ hproper).of_append
    have hpos := htail.newlines_pos_of_comments hbetween
    have hdocuments : Documents first more decl := by
      refine ⟨hbetween, hdecl, fun i hi => ?_⟩
      have hlt := hfew i (List.mem_cons_of_mem _ hi)
      have hgt := hpos i hi
      omega
    have habove : ∀ above ∈ (before ++ [clause]).getLast?, above.isComment = false := by
      intro above habove
      rw [List.getLast?_concat] at habove
      cases habove
      exact Item.isComment_eq_false (.inl hclause)
    have hneeds := needsBlankLine_of_documents hdocuments after habove
    have htwo := two_le_of_needsBlankLine h hne hsplit (fun _ => hshares) hneeds
    exact absurd htwo (Nat.not_le_of_lt (hfew first List.mem_cons_self))

theorem groupsSetOff_of_canonicalFile (h : canonicalFile items = items) : GroupsSetOff items := by
  intro before first more decl after hitems hdocuments hline hwhole
  have hne : before ≠ [] := by
    rintro rfl
    subst hitems
    exact hline (newlines_head_of_canonicalFile h)
  by_cases habove : ∃ above ∈ before.getLast?, above.isComment = true
  · obtain ⟨above, hmem, hcomment⟩ := habove
    by_cases htwo : 2 ≤ first.newlines
    · exact .inl htwo
    · exact .inr ⟨above, hmem, hcomment, hwhole above hmem hcomment (by omega)⟩
  · have hneeds := needsBlankLine_of_documents hdocuments after
      fun above hmem => eq_false_of_ne_true fun hcomment => habove ⟨above, hmem, hcomment⟩
    exact .inl (two_le_of_needsBlankLine h hne hitems (fun _ => hline) hneeds)

end

/-- A formatted text sets its declarations off: a blank line stands between the package clause and
the first declaration, and one above the comments that document a declaration, unless a comment
shares the line of the clause, or of the item above the comments. -/
theorem blankLines_of_format {s t : String} (h : format s = .ok t) :
    ∃ items, readFile t.toList = .ok items ∧ t.toList = fileText items ∧
      ClauseSetOff items ∧ GroupsSetOff items := by
  obtain ⟨items, hread, hlayout, hcanonical, hproper⟩ := exists_canonicalFile_of_format h
  exact ⟨items, hread, hlayout, clauseSetOff_of_canonicalFile hcanonical hproper,
    groupsSetOff_of_canonicalFile hcanonical⟩

/-- Two documented declarations, the first one with a comment on its line. -/
theorem blankLines_of_format_documented :
    let s := "package p\n// a\n// b\ntype A int // c\n\n\n// d\ntype B int"
    let t := "package p\n\n// a\n// b\ntype A int // c\n\n// d\ntype B int\n"
    format s = .ok t ∧ ∃ items, readFile t.toList = .ok items ∧ t.toList = fileText items ∧
      ClauseSetOff items ∧ GroupsSetOff items := by
  intro s t
  have hs : format s = .ok t := toOption_eq_some (by decide +kernel)
  exact ⟨hs, blankLines_of_format hs⟩

/-- A comment on the line of the package clause takes the place of the blank line: the text is
formatted to itself and has none. -/
theorem format_without_blankLine :
    let s := "package p // x\ntype A int\n"
    format s = .ok s ∧ ¬ ['\n', '\n'] <:+: s.toList :=
  ⟨toOption_eq_some (by decide +kernel), by decide +kernel⟩

/-- So does a comment on the line of the item above documented declarations. -/
example :
    let s := "package p\n\ntype A int // x\n// doc\ntype B int\n"
    format s = .ok s :=
  toOption_eq_some (by decide +kernel)

end SchemaToGo.Go
