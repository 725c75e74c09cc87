import SchemaToGo.Go.File.Print
import SchemaToGo.Proofs.Go.File.Proper
import Mathlib.Data.List.Forall2
set_option autoImplicit false

/-!
# Canonical trees

What a tree becomes when it is laid out and read again: line breaks are counted as the layout has
them, comments lose the blanks at their ends, and a struct with members takes several lines.  The
canonical tree has the same layout: `fileText_canonicalFile`.
-/

namespace SchemaToGo.Go

/-! ## Types -/

/-- The line breaks before a member of a struct: two for a blank line, which the first member has
not. -/
def memberNewlines (first : Bool) (newlines : Nat) : Nat :=
  if !first && 2 ≤ newlines then 2 else 1

mutual

def TypeExpr.canonical : TypeExpr → TypeExpr
  | .named name => .named name
  | .pointer target => .pointer target.canonical
  | .slice element => .slice element.canonical
  | .array digits element => .array digits element.canonical
  | .map key value => .map key.canonical value.canonical
  | .emptyInterface => .emptyInterface
  | .struct members multiline =>
    .struct (canonicalMembers true members) (multiline || !members.isEmpty)
termination_by structural type => type

def canonicalMembers (first : Bool) : List Member → List Member
  | [] => []
  | .comment newlines text :: rest =>
    .comment (memberNewlines first newlines) (Text.trimEnd text) :: canonicalMembers false rest
  | .field newlines name type tag comment :: rest =>
    .field (memberNewlines first newlines) name type.canonical tag (comment.map Text.trimEnd) ::
      canonicalMembers false rest
termination_by structural members => members

end

/-- The lines of a body with the line breaks of the layout. -/
def canonicalLines : Bool → List BodyLine → List BodyLine
  | _, [] => []
  | first, l :: rest => ⟨memberNewlines first l.newlines, l.line⟩ :: canonicalLines false rest

theorem bodyText_canonicalLines (depth : Nat) (first : Bool) (block : List Row)
    (lines : List BodyLine) :
    bodyText depth first block (canonicalLines first lines) = bodyText depth first block lines := by
  induction lines generalizing first block with
  | nil => rfl
  | cons l rest ih =>
    have hgap : (!first && decide (2 ≤ memberNewlines first l.newlines)) =
        (!first && decide (2 ≤ l.newlines)) := by
      unfold memberNewlines
      cases first with
      | true => rfl
      | false => by_cases h : 2 ≤ l.newlines <;> simp [h]
    show bodyText depth first block (⟨memberNewlines first l.newlines, l.line⟩ ::
      canonicalLines false rest) = _
    rw [bodyText, bodyText]
    dsimp only
    rw [hgap]
    cases l.line with
    | comment text =>
      dsimp only
      rw [ih]
    | field cells =>
      dsimp only
      rw [ih, ih]

theorem structText_canonicalLines (depth : Nat) (multiline : Bool) (lines : List BodyLine) :
    structText depth (multiline || !lines.isEmpty) (canonicalLines true lines) =
      structText depth multiline lines := by
  cases lines with
  | nil => simp [canonicalLines]
  | cons l rest =>
    have hbody := bodyText_canonicalLines (depth + 1) true [] (l :: rest)
    unfold structText
    rw [hbody]
    rfl

theorem isEmpty_bodyLines (depth : Nat) (ms : List Member) :
    (bodyLines depth ms).isEmpty = ms.isEmpty := by
  cases ms with
  | nil => rfl
  | cons m rest => cases m <;> rfl

/-- The canonical comment of a field is laid out as the comment. -/
theorem fieldCells_trimEnd (name : Option (List Char)) (type : List Char)
    (tag comment : Option (List Char)) :
    fieldCells name type tag (comment.map Text.trimEnd) = fieldCells name type tag comment := by
  cases comment with
  | none => rfl
  | some text =>
    unfold fieldCells
    dsimp only [Option.map_some]
    rw [Text.trimEnd_trimEnd]

mutual

/-- The canonical type has the same layout. -/
theorem TypeExpr.text_canonical : ∀ (x : TypeExpr) (depth : Nat),
    x.canonical.text depth = x.text depth
  | .named _, _ => rfl
  | .pointer target, depth => congrArg ('*' :: ·) (target.text_canonical depth)
  | .slice element, depth => congrArg ('[' :: ']' :: ·) (element.text_canonical depth)
  | .array digits element, depth =>
    congrArg ('[' :: digits ++ ']' :: ·) (element.text_canonical depth)
  | .map key value, depth => by
    show "map[".toList ++ key.canonical.text depth ++ ']' :: value.canonical.text depth = _
    rw [key.text_canonical depth, value.text_canonical depth]
    rfl
  | .emptyInterface, _ => rfl
  | .struct members multiline, depth => by
    show structText depth (multiline || !members.isEmpty)
      (bodyLines (depth + 1) (canonicalMembers true members)) = _
    rw [bodyLines_canonicalMembers members (depth + 1) true, ← isEmpty_bodyLines (depth + 1),
      structText_canonicalLines]
    rfl

theorem bodyLines_canonicalMembers : ∀ (ms : List Member) (depth : Nat) (first : Bool),
    bodyLines depth (canonicalMembers first ms) = canonicalLines first (bodyLines depth ms)
  | [], _, _ => rfl
  | .comment newlines text :: rest, depth, first => by
    show (⟨memberNewlines first newlines, .comment (Text.trimEnd (Text.trimEnd text))⟩ :
      BodyLine) :: _ = _
    rw [Text.trimEnd_trimEnd, bodyLines_canonicalMembers rest depth false]
    rfl
  | .field newlines name type tag comment :: rest, depth, first => by
    show (⟨memberNewlines first newlines, .field (fieldCells name (type.canonical.text depth) tag
      (comment.map Text.trimEnd))⟩ : BodyLine) :: _ = _
    rw [fieldCells_trimEnd, type.text_canonical depth, bodyLines_canonicalMembers rest depth false]
    rfl

end

/-! ## Files -/

def Decl.canonical : Decl → Decl
  | .comment text => .comment (Text.trimEnd text)
  | .package name => .package name
  | .type name x => .type name x.canonical

/-- The line breaks before an item that is not the first. -/
def itemNewlines (before : List Item) (item : Item) (after : List Item) : Nat :=
  if item.isComment && item.newlines == 0 then 0
  else if 2 ≤ item.newlines || needsBlankLine before item after then 2
  else 1

/-- An item that is not the first. -/
def canonicalItem (before : List Item) (item : Item) (after : List Item) : Item :=
  ⟨itemNewlines before item after, item.decl.canonical⟩

def canonicalItems : List Item → List Item → List Item
  | _, [] => []
  | before, item :: after =>
    canonicalItem before item after :: canonicalItems (item :: before) after

def canonicalFile : List Item → List Item
  | [] => []
  | item :: rest => ⟨0, item.decl.canonical⟩ :: canonicalItems [item] rest

/-- The items are of one kind. -/
structure Item.Alike (i j : Item) : Prop where
  comment : i.isComment = j.isComment
  package : i.isPackage = j.isPackage
  type : i.isType = j.isType

theorem alike_canonical (newlines : Nat) (item : Item) :
    Item.Alike ⟨newlines, item.decl.canonical⟩ item := by
  obtain ⟨_, decl⟩ := item
  cases decl <;> exact ⟨rfl, rfl, rfl⟩

theorem text_canonical (newlines : Nat) (item : Item) :
    Item.text ⟨newlines, item.decl.canonical⟩ = item.text := by
  obtain ⟨_, decl⟩ := item
  cases decl with
  | comment text => exact Text.trimEnd_trimEnd text
  | package name => rfl
  | type name type => exact congrArg ("type ".toList ++ name ++ ' ' :: ·) (type.text_canonical 0)

section

variable {before before' : List Item} {item item' : Item} {after after' : List Item}

theorem head?_alike (h : List.Forall₂ Item.Alike before before') :
    before.head?.any Item.isComment = before'.head?.any Item.isComment := by
  cases h with
  | nil => rfl
  | cons hitem _ => exact hitem.comment

theorem find?_alike (h : List.Forall₂ Item.Alike before before') :
    (before.find? fun i => !i.isComment).all Item.isPackage =
      (before'.find? fun i => !i.isComment).all Item.isPackage := by
  induction h with
  | nil => rfl
  | cons hitem _ ih =>
    rw [List.find?_cons, List.find?_cons, hitem.comment]
    split
    · exact hitem.package
    · exact ih

/-- No blank line is added after a comment. -/
theorem needsBlankLine_after_comment (h : before.head?.any Item.isComment = true) :
    needsBlankLine before item after = false := by
  unfold needsBlankLine
  rw [h]
  split <;> rfl

/-- Whether comments document a type is seen from the canonical items too. -/
theorem documentsType_canonicalItems {packaged : Bool} (h : ProperItems packaged (item :: after))
    (hitem : item.isComment = true) (before : List Item) :
    documentsType (canonicalItems (item :: before) after) = documentsType after := by
  induction after generalizing packaged item before with
  | nil => rfl
  | cons next rest ih =>
    obtain ⟨_, hrest⟩ := h.tail
    have hpos := h.newlines_pos hitem next rfl
    have halike := alike_canonical (itemNewlines (item :: before) next rest) next
    have hnewlines : (itemNewlines (item :: before) next rest == 1) = (next.newlines == 1) := by
      unfold itemNewlines
      rw [@needsBlankLine_after_comment (item :: before) next rest hitem, Bool.or_false]
      by_cases htwo : 2 ≤ next.newlines
      · simp [htwo, Nat.ne_of_gt hpos, Nat.ne_of_gt htwo]
      · have hone : next.newlines = 1 := by omega
        simp [hone]
    show documentsType (⟨itemNewlines (item :: before) next rest, next.decl.canonical⟩ ::
      canonicalItems (next :: item :: before) rest) = _
    unfold documentsType
    rw [halike.comment, halike.type]
    dsimp only
    rw [hnewlines]
    split
    · next hcomment =>
      rw [Bool.and_eq_true] at hcomment
      exact ih hrest hcomment.1 (item :: before)
    · rfl

theorem needsBlankLine_canonicalItem {packaged : Bool} (h : ProperItems packaged (item :: after))
    (hbefore : List.Forall₂ Item.Alike before' before) :
    needsBlankLine before' (canonicalItem before item after)
      (canonicalItems (item :: before) after) = needsBlankLine before item after := by
  obtain ⟨newlines, decl⟩ := item
  cases decl with
  | comment text =>
    show (!before'.head?.any Item.isComment && documentsType _) =
      (!before.head?.any Item.isComment && documentsType after)
    rw [head?_alike hbefore, documentsType_canonicalItems h rfl]
  | package name => rfl
  | type name x =>
    show (!before'.head?.any Item.isComment && _) = (!before.head?.any Item.isComment && _)
    rw [head?_alike hbefore, find?_alike hbefore]

/-- A canonical item is separated as the item. -/
theorem separator_canonicalItem {packaged : Bool} (h : ProperItems packaged (item :: after))
    (hbefore : List.Forall₂ Item.Alike before' before) :
    separator before' (canonicalItem before item after) (canonicalItems (item :: before) after) =
      separator before item after := by
  have halike := alike_canonical (itemNewlines before item after) item
  unfold separator
  rw [needsBlankLine_canonicalItem h hbefore]
  show (if Item.isComment ⟨itemNewlines before item after, item.decl.canonical⟩ &&
      itemNewlines before item after == 0 then _
    else if 2 ≤ itemNewlines before item after || needsBlankLine before item after then _
    else _) = _
  rw [halike.comment]
  unfold itemNewlines
  by_cases hshares : (item.isComment && item.newlines == 0) = true
  · obtain ⟨hcomment, hzero⟩ := Bool.and_eq_true_iff.mp hshares
    simp [hcomment, beq_iff_eq.mp hzero]
  · by_cases hblank : (decide (2 ≤ item.newlines) || needsBlankLine before item after) = true
    · simp [hshares, hblank]
    · rw [Bool.or_eq_true, not_or, Bool.not_eq_true (needsBlankLine before item after)] at hblank
      simp [hshares, hblank.1, hblank.2]

end

theorem itemsText_canonicalItems {packaged : Bool} {items before before' : List Item}
    (h : ProperItems packaged items) (hbefore : List.Forall₂ Item.Alike before' before) :
    itemsText before' (canonicalItems before items) = itemsText before items := by
  induction items generalizing packaged before before' with
  | nil => rfl
  | cons item after ih =>
    obtain ⟨_, hafter⟩ := h.tail
    have hrest := ih hafter (.cons (alike_canonical (itemNewlines before item after) item) hbefore)
    show separator before' (canonicalItem before item after) _ ++
      Item.text ⟨_, item.decl.canonical⟩ ++ _ = _
    rw [separator_canonicalItem h hbefore, text_canonical]
    exact congrArg (_ ++ ·) hrest

/-- The canonical file has the same layout. -/
theorem fileText_canonicalFile {packaged : Bool} {items : List Item}
    (h : ProperItems packaged items) : fileText (canonicalFile items) = fileText items := by
  cases items with
  | nil => rfl
  | cons item rest =>
    obtain ⟨_, hrest⟩ := h.tail
    show Item.text ⟨0, item.decl.canonical⟩ ++ itemsText [_] (canonicalItems [item] rest) ++ _ = _
    rw [text_canonical, itemsText_canonicalItems hrest (.cons (alike_canonical 0 item) .nil)]
    rfl

end SchemaToGo.Go
