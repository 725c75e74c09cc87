import SchemaToGo.Proofs.Go.Columns.Blocks
import SchemaToGo.Proofs.Go.Format
set_option autoImplicit false

/-!
# Fields that take several lines

A field that takes several lines stands alone: its cells are joined by spaces, whether there is
anything in them or not.  A table of this one row has no space for empty cells.  The two agree
unless an empty cell stands for the tag that a named field with a comment does not have; then the
comment has two spaces before it.  Main statement: `format_solitary`.

SPEC_FULL.md section 4.4 discards the empty cells of a block in all cases; the fields with two
spaces are the exception to it.
-/

namespace SchemaToGo.Go

/-! ## Tables of one row -/

/-- The cells that are not empty, with a space between each two. -/
def compactText (cells : Row) : List Char :=
  ((cells.filter fun cell => !cell.isEmpty).intersperse [' ']).flatten

/-- The width of a block of one cell. -/
def soleWidth (cell : List Char) : Nat := if cell = [] then 0 else cell.length + 1

theorem wide_soleWidth (cell : List Char) : Wide (soleWidth cell) cell := by
  unfold soleWidth
  split
  · next hempty => exact .inl hempty
  · exact .inr (Nat.lt_succ_self _)

theorem pad_soleWidth {cell : List Char} (h : cell ≠ []) :
    pad (soleWidth cell) cell = cell ++ [' '] := by
  unfold soleWidth pad
  rw [if_neg h, Nat.add_sub_cancel_left]
  rfl

theorem blockWidth_singleton (column : Nat) (cells : Row) :
    blockWidth column [cells] = soleWidth (cells.getD column []) := by
  unfold blockWidth soleWidth
  rw [List.map_singleton, List.foldr_cons, List.foldr_nil, Nat.max_zero]
  cases cells.getD column [] with
  | nil => rfl
  | cons => rfl

theorem widthAt_singleton {cells : Row} {column : Nat} (h : column + 1 < cells.length) :
    widthAt [cells] 0 column = soleWidth (cells.getD column []) := by
  have hcolumn : cells.hasColumn column = true := decide_eq_true h
  unfold widthAt
  rw [columnWidths, if_pos hcolumn]
  exact blockWidth_singleton column cells

theorem getElem?_map_soleWidth {cells : Row} {column : Nat} (h : column + 1 < cells.length) :
    (cells.map soleWidth)[column]? = some (soleWidth (cells.getD column [])) := by
  have hlt : column < cells.length := Nat.lt_of_succ_lt h
  rw [List.getElem?_map, List.getElem?_eq_getElem hlt, List.getD_eq_getElem _ _ hlt]
  rfl

/-- Every cell of a single row is a block of its own. -/
theorem align_singleton_eq (cells : Row) :
    align [cells] = [Text.trimEnd (rowText (cells.map soleWidth) cells)] := by
  have hwidths : rowText (cells.map soleWidth) cells = (cells.padded (widthAt [cells] 0)).flatten :=
    rowText_eq fun column hcolumn => by
      rw [widthAt_singleton hcolumn, getElem?_map_soleWidth hcolumn]
  rw [align_eq, hwidths]
  rfl

theorem mem_intersperse {cell : List Char} {cells : Row} (h : cell ∈ cells) :
    cell ∈ cells.intersperse [' '] := by
  induction cells with
  | nil => cases h
  | cons first rest ih =>
    cases rest with
    | nil => exact h
    | cons next rest =>
      rw [List.intersperse_cons_cons]
      rcases List.mem_cons.mp h with rfl | hrest
      · exact List.mem_cons_self
      · exact List.mem_cons_of_mem _ (List.mem_cons_of_mem _ (ih hrest))

section

variable {cells : Row} {ms : List Mark}

theorem exists_ne_nil_of_rowCuts (h : RowCuts cells ms) : ∃ cell ∈ cells, cell ≠ [] := by
  induction h with
  | last hline => exact ⟨_, List.mem_cons_self, hline.1.ne_nil⟩
  | empty _ ih =>
    obtain ⟨cell, hmem, hne⟩ := ih
    exact ⟨cell, List.mem_cons_of_mem _ hmem, hne⟩
  | cell hne => exact ⟨_, List.mem_cons_self, hne⟩

theorem compactText_nil_cons (cells : Row) : compactText ([] :: cells) = compactText cells := rfl

theorem compactText_cons {cell : List Char} (hne : cell ≠ []) (h : RowCuts cells ms) :
    compactText (cell :: cells) = cell ++ ' ' :: compactText cells := by
  obtain ⟨ink, hmem, hink⟩ := exists_ne_nil_of_rowCuts h
  have hkept : ink ∈ cells.filter fun cell => !cell.isEmpty :=
    List.mem_filter.mpr ⟨hmem, by simpa using hink⟩
  unfold compactText
  rw [List.filter_cons_of_pos (by simpa using hne)]
  cases hcells : cells.filter fun cell => !cell.isEmpty with
  | nil => rw [hcells] at hkept; cases hkept
  | cons next rest => rfl

theorem rowText_soleWidth (h : RowCuts cells ms) :
    rowText (cells.map soleWidth) cells = compactText cells := by
  induction h with
  | @last cell _ hline =>
    have hne := hline.1.ne_nil
    simp [rowText, compactText, hne]
  | @empty row _ hrow ih =>
    obtain ⟨next, rest, rfl⟩ := rowCuts_ne_nil hrow
    rw [compactText_nil_cons, ← ih]
    rfl
  | @cell cell row _ _ hne _ hrow ih =>
    rw [compactText_cons hne hrow, ← ih]
    obtain ⟨next, rest, rfl⟩ := rowCuts_ne_nil hrow
    show pad (soleWidth cell) cell ++ rowText _ (next :: rest) = _
    rw [pad_soleWidth hne, List.append_assoc]
    rfl

theorem separates_soleWidth (cells : Row) : Separates (cells.map soleWidth) cells :=
  fun _ hcolumn => ⟨_, getElem?_map_soleWidth hcolumn, wide_soleWidth _⟩

/-- A table of one row has a space between its cells, those apart that are empty. -/
theorem align_singleton (h : RowCuts cells ms) : align [cells] = [compactText cells] := by
  have hline := lineCuts_rowText h (separates_soleWidth cells)
  rw [align_singleton_eq, hline.1.trimEnd, rowText_soleWidth h]

theorem solitaryText_eq_compactText (h : RowCuts cells ms) (hcells : [] ∉ cells) :
    solitaryText cells = compactText cells := by
  have hall : (cells.filter fun cell => !cell.isEmpty) = cells := by
    refine List.filter_eq_self.mpr fun cell hcell => ?_
    have hne : cell ≠ [] := fun hempty => hcells (hempty ▸ hcell)
    simpa using hne
  unfold compactText
  rw [solitaryText_eq h, hall]

end

/-! ## Fields -/

/-- A comment stands behind an empty cell for a tag. -/
def LeavesGap (name tag comment : Option (List Char)) : Prop :=
  name ≠ none ∧ tag = none ∧ comment ≠ none

section

variable {name tag comment : Option (List Char)} {type : TypeExpr}

theorem rowCuts_field (hfield : ProperField name type) (htag : ProperTag tag)
    (hcomment : ProperComment comment) (depth : Nat) :
    ∃ ms, RowCuts (fieldCells name (type.text depth) tag comment) ms := by
  obtain ⟨hname, htype⟩ := textCuts_field hfield depth
  exact ⟨_, rowCuts_fieldCells hname htype htag hcomment⟩

theorem text_mem_fieldCells (name : Option (List Char)) (text : List Char)
    (tag comment : Option (List Char)) : text ∈ fieldCells name text tag comment := by
  simp [fieldCells]

/-- Only the cell that stands for a tag is empty. -/
theorem leavesGap_of_nil_mem (hfield : ProperField name type) (htag : ProperTag tag)
    (hcomment : ProperComment comment) {depth : Nat}
    (h : [] ∈ fieldCells name (type.text depth) tag comment) : LeavesGap name tag comment := by
  obtain ⟨hname, htype⟩ := textCuts_field hfield depth
  simp only [fieldCells, List.mem_append] at h
  rcases h with ((hcell | hcell) | hcell) | hcell
  · have hword := (isWord_of_isIdentifier (hname [] (Option.mem_toList.mp hcell))).1
    cases hword
  · exact absurd (List.mem_singleton.mp hcell).symm htype.1.ne_nil
  · exact absurd rfl (textCuts_str (htag [] (Option.mem_toList.mp hcell))).1.ne_nil
  · cases comment with
    | none => cases hcell
    | some text =>
      have htext := (lineCuts_comment (hcomment text rfl)).1.ne_nil
      rcases List.mem_append.mp hcell with hcell | hcell
      · split at hcell
        · next hgap =>
          exact ⟨Option.isSome_iff_ne_none.mp hgap.2, Option.isNone_iff_eq_none.mp hgap.1, nofun⟩
        · cases hcell
      · exact absurd (List.mem_singleton.mp hcell).symm htext

/-- Two spaces stand before a comment that leaves a gap. -/
theorem solitaryText_gap {word type text : List Char} {ms : List Mark}
    (h : RowCuts (fieldCells (some word) type none (some text)) ms) :
    solitaryText (fieldCells (some word) type none (some text)) =
      word ++ ' ' :: (type ++ ' ' :: ' ' :: Text.trimEnd text) := by
  rw [solitaryText_eq h]
  simp [fieldCells]

theorem compactText_gap {word type text : List Char} (hword : word ≠ []) (htype : type ≠ [])
    (htext : Text.trimEnd text ≠ []) :
    compactText (fieldCells (some word) type none (some text)) =
      word ++ ' ' :: (type ++ ' ' :: Text.trimEnd text) := by
  simp [compactText, fieldCells, hword, htype, htext]

theorem solitaryText_eq_compactText_iff (hfield : ProperField name type) (htag : ProperTag tag)
    (hcomment : ProperComment comment) (depth : Nat) :
    solitaryText (fieldCells name (type.text depth) tag comment) =
        compactText (fieldCells name (type.text depth) tag comment) ↔
      ¬ LeavesGap name tag comment := by
  obtain ⟨ms, hcells⟩ := rowCuts_field hfield htag hcomment depth
  constructor
  · rintro heq ⟨hname, rfl, htext⟩
    obtain ⟨word, rfl⟩ := Option.ne_none_iff_exists'.mp hname
    obtain ⟨text, rfl⟩ := Option.ne_none_iff_exists'.mp htext
    obtain ⟨hword, htype⟩ := textCuts_field hfield depth
    have hword := textCuts_word (isWord_of_isIdentifier (hword word rfl)).1
    have hshort := compactText_gap hword.1.ne_nil htype.1.ne_nil
      (lineCuts_comment (hcomment text rfl)).1.ne_nil
    have hlengths := congrArg List.length ((solitaryText_gap hcells).symm.trans (heq.trans hshort))
    simp only [List.length_append, List.length_cons] at hlengths
    omega
  · intro hgap
    exact solitaryText_eq_compactText hcells fun hmem =>
      hgap (leavesGap_of_nil_mem hfield htag hcomment hmem)

end

/-! ## Bodies -/

theorem bodyLines_append (depth : Nat) (front back : List Member) :
    bodyLines depth (front ++ back) = bodyLines depth front ++ bodyLines depth back := by
  induction front with
  | nil => rfl
  | cons member rest ih =>
    cases member with
    | comment newlines text => exact congrArg (List.cons _) ih
    | field newlines name type tag comment => exact congrArg (List.cons _) ih

theorem spansLines_of_mem {cells : Row} {cell : List Char} (hmem : cell ∈ cells)
    (h : '\n' ∈ cell) : spansLines cells = true :=
  List.any_eq_true.mpr ⟨cell, hmem, List.contains_iff_mem.mpr h⟩

theorem isInfix_indented (depth : Nat) (text : List Char) : text <:+: indented depth text :=
  ⟨tabs depth, ['\n'], rfl⟩

theorem blockText_nil (depth : Nat) : blockText depth [] = [] := rfl

/-- A field that takes several lines is printed between the lines before it and those behind it,
below a blank line if there is one in the text and it is not the first. -/
theorem bodyText_solitary (depth : Nat) {cells : Row} (hlines : spansLines cells = true)
    (newlines : Nat) (front back : List BodyLine) (first : Bool) (block : List Row) :
    bodyText depth first block (front ++ ⟨newlines, .field cells⟩ :: back) =
      bodyText depth first block front ++
        ((if !(first && front.isEmpty) && 2 ≤ newlines then ['\n'] else []) ++
          (indented depth (solitaryText cells) ++ bodyText depth false [] back)) := by
  induction front generalizing first block with
  | nil =>
    rw [List.nil_append, bodyText, bodyText, List.isEmpty_nil, Bool.and_true]
    show (if _ then _ else _) ++ (if spansLines cells = true then _ else _) = _
    rw [if_pos hlines]
    split
    · simp only [blockText_nil, List.nil_append, List.append_assoc]
    · simp only [List.nil_append, List.append_assoc]
  | cons line rest ih =>
    rw [List.cons_append, bodyText, bodyText, List.isEmpty_cons, Bool.and_false]
    have hbehind := fun block => ih false block
    rw [Bool.false_and] at hbehind
    cases line.line with
    | comment text => simp only [hbehind, List.append_assoc]
    | field row =>
      cases hrow : spansLines row with
      | true => simp only [hbehind, hrow, if_true, List.append_assoc]
      | false => simp only [hbehind, hrow, Bool.false_eq_true, if_false, List.append_assoc]

/-- A struct is printed with its field that takes several lines between the fields before it and
those behind it. -/
theorem text_struct_solitary (depth newlines : Nat) (front back : List Member)
    (name tag comment : Option (List Char)) (type : TypeExpr) (multiline : Bool)
    (hlines : spansLines (fieldCells name (type.text (depth + 1)) tag comment) = true) :
    let members := front ++ .field newlines name type tag comment :: back
    (TypeExpr.struct members multiline).text depth =
      "struct \x7b\n".toList ++ bodyText (depth + 1) true [] (bodyLines (depth + 1) front) ++
        (if !front.isEmpty && 2 ≤ newlines then ['\n'] else []) ++
        indented (depth + 1) (solitaryText (fieldCells name (type.text (depth + 1)) tag comment)) ++
        bodyText (depth + 1) false [] (bodyLines (depth + 1) back) ++ tabs depth ++ ['\x7d'] := by
  intro members
  have hempty : (bodyLines (depth + 1) front).isEmpty = front.isEmpty := by
    cases front with
    | nil => rfl
    | cons member => cases member <;> rfl
  have hsome : ∀ (before after : List BodyLine) (line : BodyLine),
      (before ++ line :: after).isEmpty = false := by
    intro before after line
    cases before <;> rfl
  show structText depth multiline (bodyLines (depth + 1) (front ++ _ :: back)) = _
  rw [bodyLines_append, bodyLines]
  unfold structText
  rw [hsome, if_neg Bool.false_ne_true, bodyText_solitary _ hlines, hempty, Bool.true_and]
  simp only [List.append_assoc]

/-! ## Types in types -/

/-- A type stands in another, so many struct bodies deep. -/
inductive StandsIn (x : TypeExpr) : Nat → TypeExpr → Prop
  | here : StandsIn x 0 x
  | pointer {levels : Nat} {target : TypeExpr} : StandsIn x levels target →
      StandsIn x levels (.pointer target)
  | slice {levels : Nat} {element : TypeExpr} : StandsIn x levels element →
      StandsIn x levels (.slice element)
  | array {levels : Nat} {digits : List Char} {element : TypeExpr} : StandsIn x levels element →
      StandsIn x levels (.array digits element)
  | key {levels : Nat} {key value : TypeExpr} : StandsIn x levels key →
      StandsIn x levels (.map key value)
  | value {levels : Nat} {key value : TypeExpr} : StandsIn x levels value →
      StandsIn x levels (.map key value)
  | field {levels newlines : Nat} {front back : List Member} {name tag comment : Option (List Char)}
      {type : TypeExpr} {multiline : Bool} : StandsIn x levels type →
      StandsIn x (levels + 1) (.struct (front ++ .field newlines name type tag comment :: back)
        multiline)

section

variable {newlines : Nat} {front back : List Member} {name tag comment : Option (List Char)}
  {type : TypeExpr} {multiline : Bool}

theorem ProperMembers.field_of_append
    (h : ProperMembers (front ++ .field newlines name type tag comment :: back)) :
    ProperField name type ∧ ProperTag tag ∧ ProperComment comment := by
  induction front with
  | nil =>
    cases h with
    | field hfield htag hcomment _ => exact ⟨hfield, htag, hcomment⟩
  | cons member rest ih =>
    cases h with
    | comment _ hmore => exact ih hmore
    | field _ _ _ hmore => exact ih hmore

theorem ProperType.members {members : List Member} (h : ProperType (.struct members multiline)) :
    ProperMembers members := by
  cases h with
  | struct hmembers => exact hmembers

theorem StandsIn.properType {x y : TypeExpr} {levels : Nat} (h : StandsIn x levels y)
    (hy : ProperType y) : ProperType x := by
  induction h with
  | here => exact hy
  | pointer _ ih => cases hy with | pointer htarget => exact ih htarget
  | slice _ ih => cases hy with | slice helement => exact ih helement
  | array _ ih => cases hy with | array _ helement => exact ih helement
  | key _ ih => cases hy with | map hkey _ => exact ih hkey
  | value _ ih => cases hy with | map _ hvalue => exact ih hvalue
  | field _ ih => exact ih hy.members.field_of_append.1.properType

/-- A type that takes several lines is printed as it is wherever it stands. -/
theorem StandsIn.isInfix_text {x y : TypeExpr} {levels : Nat} (h : StandsIn x levels y)
    (hy : ProperType y) {depth : Nat} (hlines : '\n' ∈ x.text (depth + levels)) :
    x.text (depth + levels) <:+: y.text depth := by
  induction h generalizing depth with
  | here => exact List.infix_rfl
  | pointer _ ih =>
    cases hy with
    | pointer htarget => exact (ih htarget hlines).trans (List.suffix_cons _ _).isInfix
  | slice _ ih =>
    cases hy with
    | slice helement => exact (ih helement hlines).trans (List.suffix_append ['[', ']'] _).isInfix
  | array _ ih =>
    cases hy with
    | array _ helement =>
      exact (ih helement hlines).trans
        ((List.suffix_cons _ _).trans (List.suffix_append _ _)).isInfix
  | key _ ih =>
    cases hy with
    | map hkey _ =>
      refine (ih hkey hlines).trans ?_
      exact (List.suffix_append _ _).isInfix.trans (List.prefix_append _ _).isInfix
  | value _ ih =>
    cases hy with
    | map _ hvalue =>
      exact (ih hvalue hlines).trans
        ((List.suffix_cons _ _).trans (List.suffix_append _ _)).isInfix
  | @field levels newlines front back name tag comment type multiline _ ih =>
    obtain ⟨hfield, htag, hcomment⟩ := hy.members.field_of_append
    have hdepth : depth + (levels + 1) = depth + 1 + levels := by omega
    rw [hdepth] at hlines ⊢
    -- the type of the field takes several lines as well, so the field stands alone
    have htype := ih hfield.properType hlines
    have hmem := text_mem_fieldCells name (type.text (depth + 1)) tag comment
    obtain ⟨ms, hcells⟩ := rowCuts_field hfield htag hcomment (depth + 1)
    have hline := htype.trans (List.infix_of_mem_flatten (mem_intersperse hmem))
    rw [← solitaryText_eq hcells] at hline
    rw [text_struct_solitary depth newlines front back name tag comment type multiline
      (spansLines_of_mem hmem (htype.subset hlines))]
    refine hline.trans ((isInfix_indented (depth + 1) _).trans ?_)
    exact (List.suffix_append _ _).isInfix.trans
      ((List.prefix_append _ _).trans ((List.prefix_append _ _).trans
        (List.prefix_append _ _))).isInfix

end

/-! ## Files -/

theorem isInfix_itemsText {item : Item} {items : List Item} (h : item ∈ items)
    (before : List Item) : item.text <:+: itemsText before items := by
  induction items generalizing before with
  | nil => cases h
  | cons first rest ih =>
    rw [itemsText]
    rcases List.mem_cons.mp h with rfl | hrest
    · exact (List.suffix_append _ _).isInfix.trans (List.prefix_append _ _).isInfix
    · exact (ih hrest _).trans (List.suffix_append _ _).isInfix

theorem isInfix_fileText {item : Item} {items : List Item} (h : item ∈ items) :
    item.text <:+: fileText items := by
  cases items with
  | nil => cases h
  | cons first rest =>
    rw [fileText]
    refine List.IsInfix.trans ?_ (List.prefix_append _ _).isInfix
    rcases List.mem_cons.mp h with rfl | hrest
    · exact (List.prefix_append _ _).isInfix
    · exact (isInfix_itemsText hrest _).trans (List.suffix_append _ _).isInfix

theorem ProperItems.type_of_mem {packaged : Bool} {items : List Item}
    (h : ProperItems packaged items) {newlines : Nat} {name : List Char} {type : TypeExpr}
    (hitem : ⟨newlines, .type name type⟩ ∈ items) : ProperType type := by
  induction h with
  | nil => cases hitem
  | comment _ _ _ ih => exact ih ((List.mem_cons.mp hitem).resolve_left nofun)
  | package _ _ ih => exact ih ((List.mem_cons.mp hitem).resolve_left nofun)
  | type _ htype _ ih =>
    rcases List.mem_cons.mp hitem with heq | hmore
    · cases heq
      exact htype
    · exact ih hmore

/-- Fields that take several lines are printed alone.  For every such field of a struct of a text,
the struct stands in the formatted text with the field's cells, joined by spaces, on lines of their
own.  As a table of one row they would have single spaces between those that are not empty, and so
they do exactly if the field leaves no gap; else there are two spaces before its comment. -/
theorem format_solitary {s : String} {items : List Item} {declared : List Char} {expr : TypeExpr}
    {itemNewlines depth newlines : Nat} {front back : List Member}
    {name tag comment : Option (List Char)} {type : TypeExpr} {multiline : Bool}
    (hread : readFile s.toList = .ok items)
    (hitem : ⟨itemNewlines, .type declared expr⟩ ∈ items)
    (hstruct : StandsIn (.struct (front ++ .field newlines name type tag comment :: back) multiline)
      depth expr)
    (hlines : '\n' ∈ type.text (depth + 1) ∨ ∃ literal ∈ tag, '\n' ∈ literal) :
    let struct := TypeExpr.struct (front ++ .field newlines name type tag comment :: back) multiline
    let cells := fieldCells name (type.text (depth + 1)) tag comment
    (∃ t, format s = .ok t ∧ struct.text depth <:+: t.toList) ∧
    (struct.text depth =
      "struct \x7b\n".toList ++ bodyText (depth + 1) true [] (bodyLines (depth + 1) front) ++
        (if !front.isEmpty && 2 ≤ newlines then ['\n'] else []) ++
        indented (depth + 1) (solitaryText cells) ++
        bodyText (depth + 1) false [] (bodyLines (depth + 1) back) ++ tabs depth ++ ['\x7d']) ∧
    align [cells] = [compactText cells] ∧
    (align [cells] = [solitaryText cells] ↔ ¬ LeavesGap name tag comment) ∧
    ∀ word text, name = some word → tag = none → comment = some text →
      solitaryText cells =
        word ++ ' ' :: (type.text (depth + 1) ++ ' ' :: ' ' :: Text.trimEnd text) := by
  intro struct cells
  have hproper := (properItems_of_readFile hread).type_of_mem hitem
  obtain ⟨hfield, htag, hcomment⟩ := (hstruct.properType hproper).members.field_of_append
  obtain ⟨ms, hcells⟩ := rowCuts_field hfield htag hcomment (depth + 1)
  have hspans : spansLines cells = true := by
    rcases hlines with htype | ⟨literal, hliteral, hfeed⟩
    · exact spansLines_of_mem (text_mem_fieldCells _ _ _ _) htype
    · have hcell : literal ∈ cells := by simp [cells, fieldCells, Option.mem_def.mp hliteral]
      exact spansLines_of_mem hcell hfeed
  have htext :=
    text_struct_solitary depth newlines front back name tag comment type multiline hspans
  have halign := align_singleton hcells
  refine ⟨⟨_, format_eq_ok_iff.mpr ⟨items, hread, rfl⟩, ?_⟩, htext, halign, ?_, ?_⟩
  · have hfeed : '\n' ∈ struct.text (0 + depth) := by
      rw [Nat.zero_add, htext]
      simp
    have hinfix := hstruct.isInfix_text hproper hfeed
    rw [Nat.zero_add] at hinfix
    rw [String.toList_ofList]
    refine hinfix.trans (List.IsInfix.trans ?_ (isInfix_fileText hitem))
    exact ((List.suffix_cons _ _).trans (List.suffix_append _ _)).isInfix
  · have hiff := solitaryText_eq_compactText_iff hfield htag hcomment (depth + 1)
    rw [halign, List.singleton_inj, ← hiff]
    exact eq_comm
  · rintro word text rfl rfl rfl
    exact solitaryText_gap hcells

/-- A tag of two lines keeps the comment behind it one space away. -/
theorem format_solitary_tag :
    let s := "package p\n\ntype T []struct \x7b\n\tA int\n\tB *C `a\nb` // c\n\x7d\n"
    let tag := "`a\nb`".toList
    let text := "// c".toList
    let front := [Member.field 1 (some ['A']) (.named "int".toList) none none]
    let members := front ++ [.field 1 (some ['B']) (.pointer (.named ['C'])) (some tag) (some text)]
    let expr := TypeExpr.struct members true
    let items : List Item := [⟨0, .package ['p']⟩, ⟨2, .type ['T'] (.slice expr)⟩]
    readFile s.toList = .ok items ∧ StandsIn expr 0 (.slice expr) ∧ '\n' ∈ tag ∧
      align [[['B'], "*C".toList, tag, text]] = ["B *C `a\nb` // c".toList] ∧
      solitaryText [['B'], "*C".toList, tag, text] = "B *C `a\nb` // c".toList := by
  intro s tag text front members expr items
  have hint : ProperField (some ['A']) (.named "int".toList) :=
    .named (by decide) (.name (.plain (by decide)))
  have hpointer : ProperField (some ['B']) (.pointer (.named ['C'])) :=
    .named (by decide) (.pointer (.name (.plain (by decide))))
  have htag : ProperTag (some tag) := by
    intro literal hliteral
    cases hliteral
    exact .inl ⟨"a\nb".toList, by decide, by decide, by decide⟩
  have hcomment : ProperComment (some text) := by
    intro literal hliteral
    cases hliteral
    exact ⟨" c".toList, by decide, by decide⟩
  have hmembers : ProperMembers members :=
    .field hint (fun literal h => absurd h (Option.not_mem_none literal))
      (fun literal h => absurd h (Option.not_mem_none literal)) (.field hpointer htag hcomment .nil)
  have hproper : ProperItems false items :=
    .package (by decide) (.type (by decide) (.slice (.struct hmembers)) .nil)
  have hread : readFile s.toList = .ok items := by
    have htext : s.toList = fileText items := by decide +kernel
    rw [htext]
    exact readFile_fileText hproper
  have hstands : StandsIn expr 0 (.slice expr) := .slice .here
  have hfeed : '\n' ∈ tag := by decide
  obtain ⟨_, _, halign, hiff, _⟩ :=
    format_solitary hread (List.mem_cons_of_mem _ List.mem_cons_self) hstands
      (.inr ⟨tag, rfl, hfeed⟩)
  refine ⟨hread, hstands, hfeed, halign, ?_⟩
  have hsame := hiff.mpr fun hgap => Option.some_ne_none tag hgap.2.1
  exact List.singleton_inj.mp (hsame.symm.trans halign)

/-- A comment behind a struct that takes several lines has two spaces before it, where a table of
this row has one. -/
theorem format_gap :
    let s := "package p\n\ntype T struct \x7b\n\tA struct \x7b\n\t\tB int\n\t\x7d // c\n\x7d\n"
    let t := "package p\n\ntype T struct \x7b\n\tA struct \x7b\n\t\tB int\n\t\x7d  // c\n\x7d\n"
    let cells := fieldCells (some ['A']) "struct \x7b\n\t\tB int\n\t\x7d".toList none
      (some "// c".toList)
    format s = .ok t ∧ align [cells] = ["A struct \x7b\n\t\tB int\n\t\x7d // c".toList] ∧
      solitaryText cells = "A struct \x7b\n\t\tB int\n\t\x7d  // c".toList := by
  intro s t cells
  exact ⟨toOption_eq_some (by decide +kernel), by decide +kernel, by decide +kernel⟩

end SchemaToGo.Go
