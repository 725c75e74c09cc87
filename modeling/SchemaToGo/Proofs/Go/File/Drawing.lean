import SchemaToGo.Proofs.Go.File.Layout
set_option autoImplicit false

/-!
# Writing a layout

A layout is written from left to right by a pen that knows how many bodies are open, what the line
above is and how much of its own line is written.  `Draws` gives the rules that the pen keeps: a
line starts with a tab for every body that is open, a closing brace counting as outside the body it
closes; no blanks stand at the end of a line; an opening brace ends its line, unless it is closed at
once; and a blank line stands only between two lines with text, neither of which opens a body above
it or closes one below it.  The layout of every file whose tokens fit on their lines is written by
these rules: `draws_fileText`.
-/

namespace SchemaToGo.Go

/-! ## The rules -/

/-- What stands above a line. -/
inductive Above where
  /-- the line is the first -/
  | top
  | blank
  /-- a line that ends in an opening brace -/
  | opener
  | plain
  deriving DecidableEq, Repr

/-- Where a layout has got to, and how many bodies are open there. -/
inductive Pen where
  /-- on a line of which nothing but tabs is written -/
  | margin (depth : Nat) (above : Above) (tabs : Nat)
  /-- behind a token: `ink` tells that no space follows it, and `opened` that it is an opening
  brace -/
  | inside (depth : Nat) (ink opened : Bool)
  deriving DecidableEq, Repr

/-- A token other than a brace may be written. -/
inductive Pen.Ready (depth : Nat) : Pen → Prop
  | margin (above : Above) : Ready depth (.margin depth above depth)
  | inside (ink : Bool) : Ready depth (.inside depth ink false)

namespace Kind

/-- The token is written on one line, without blanks at its ends. -/
structure Inked (k : Kind) : Prop where
  starts : ∀ c ∈ k.spelling.head?, Text.isBlank c = false
  ends : Text.EndsInk k.spelling
  line : '\n' ∉ k.spelling

def IsBrace (k : Kind) : Prop := k = .punct .openBrace ∨ k = .punct .closeBrace

end Kind

/-- A text with its marks, as it is written from one pen to another. -/
inductive Draws : Pen → List Char → List Mark → Pen → Prop
  | done {p : Pen} : Draws p [] [] p
  | tab {depth n : Nat} {above : Above} {t : List Char} {ms : List Mark} {q : Pen} :
      Draws (.margin depth above (n + 1)) t ms q → Draws (.margin depth above n) ('\t' :: t) ms q
  | space {depth : Nat} {ink : Bool} {t : List Char} {ms : List Mark} {q : Pen} :
      Draws (.inside depth false false) t ms q → Draws (.inside depth ink false) (' ' :: t) ms q
  | token {depth : Nat} {p q : Pen} {k : Kind} {t : List Char} {ms : List Mark} :
      p.Ready depth → k.Inked → ¬ k.IsBrace → Draws (.inside depth true false) t ms q →
      Draws p (k.spelling ++ t) (.token k :: ms) q
  | opens {depth : Nat} {ink : Bool} {t : List Char} {ms : List Mark} {q : Pen} :
      Draws (.inside (depth + 1) true true) t ms q →
      Draws (.inside depth ink false) ('\x7b' :: t) (.token (.punct .openBrace) :: ms) q
  /-- the brace before is closed at once -/
  | closes {depth : Nat} {t : List Char} {ms : List Mark} {q : Pen} :
      Draws (.inside depth true false) t ms q →
      Draws (.inside (depth + 1) true true) ('\x7d' :: t) (.token (.punct .closeBrace) :: ms) q
  /-- a body is closed at the start of a line -/
  | closesBody {depth : Nat} {above : Above} {t : List Char} {ms : List Mark} {q : Pen} :
      above ≠ .blank → Draws (.inside depth true false) t ms q →
      Draws (.margin (depth + 1) above depth) ('\x7d' :: t) (.token (.punct .closeBrace) :: ms) q
  | feed {depth : Nat} {opened : Bool} {t : List Char} {ms : List Mark} {q : Pen} :
      Draws (.margin depth (if opened then .opener else .plain) 0) t ms q →
      Draws (.inside depth true opened) ('\n' :: t) (.feed :: ms) q
  | blankLine {depth : Nat} {t : List Char} {ms : List Mark} {q : Pen} :
      Draws (.margin depth .blank 0) t ms q →
      Draws (.margin depth .plain 0) ('\n' :: t) (.feed :: ms) q

namespace Draws

variable {p q r : Pen} {t u : List Char} {ms ns : List Mark}

theorem append (h : Draws p t ms q) (h' : Draws q u ns r) : Draws p (t ++ u) (ms ++ ns) r := by
  induction h with
  | done => exact h'
  | tab _ ih => exact .tab (ih h')
  | space _ ih => exact .space (ih h')
  | token hp hk hbrace _ ih =>
    rw [List.append_assoc]
    exact .token hp hk hbrace (ih h')
  | opens _ ih => exact .opens (ih h')
  | closes _ ih => exact .closes (ih h')
  | closesBody habove _ ih => exact .closesBody habove (ih h')
  | feed _ ih => exact .feed (ih h')
  | blankLine _ ih => exact .blankLine (ih h')

/-- Nothing moves the pen but what is written. -/
theorem eq_of_nil (h : Draws p [] ms q) : p = q := by
  generalize ht : ([] : List Char) = t at h
  cases h with
  | done => rfl
  | token _ hk =>
    have hnil := (List.append_eq_nil_iff.mp ht.symm).1
    exact absurd hnil hk.ends.ne_nil
  | _ => cases ht

/-- What is written up to a place where a line may end, ends in ink. -/
theorem endsInk {depth : Nat} {opened : Bool} (h : Draws p t ms (.inside depth true opened))
    (ht : t ≠ []) : Text.EndsInk t := by
  have hrest : ∀ {p : Pen} {t u : List Char} {ms : List Mark},
      Draws p t ms (.inside depth true opened) → (t ≠ [] → Text.EndsInk t) →
      (p = .inside depth true opened → Text.EndsInk u) → Text.EndsInk (u ++ t) := by
    intro p t u ms h ih hu
    by_cases ht : t = []
    · subst ht
      rw [List.append_nil]
      exact hu h.eq_of_nil
    · exact (ih ht).append u
  generalize hq : Pen.inside depth true opened = q at h
  induction h with
  | done => exact absurd rfl ht
  | tab h ih => subst hq; exact hrest (u := ['\t']) h (fun ht => ih ht rfl) nofun
  | space h ih => subst hq; exact hrest (u := [' ']) h (fun ht => ih ht rfl) nofun
  | token _ hk _ h ih => subst hq; exact hrest h (fun ht => ih ht rfl) fun _ => hk.ends
  | opens h ih =>
    subst hq
    exact hrest (u := ['\x7b']) h (fun ht => ih ht rfl) fun _ => Text.endsInk_singleton (by decide)
  | closes h ih =>
    subst hq
    exact hrest (u := ['\x7d']) h (fun ht => ih ht rfl) fun _ => Text.endsInk_singleton (by decide)
  | closesBody _ h ih =>
    subst hq
    exact hrest (u := ['\x7d']) h (fun ht => ih ht rfl) fun _ => Text.endsInk_singleton (by decide)
  | feed h ih => subst hq; exact hrest (u := ['\n']) h (fun ht => ih ht rfl) nofun
  | blankLine h ih => subst hq; exact hrest (u := ['\n']) h (fun ht => ih ht rfl) nofun

end Draws

/-- The tokens fit on their lines. -/
def InkedMarks (ms : List Mark) : Prop := ∀ k, .token k ∈ ms → k.Inked

namespace InkedMarks

variable {ms ns : List Mark} {m : Mark} {k : Kind}

theorem of_subset (h : InkedMarks ms) (hns : ns ⊆ ms) : InkedMarks ns := fun k hk => h k (hns hk)

theorem left (h : InkedMarks (ms ++ ns)) : InkedMarks ms :=
  h.of_subset (List.subset_append_left _ _)

theorem right (h : InkedMarks (ms ++ ns)) : InkedMarks ns :=
  h.of_subset (List.subset_append_right _ _)

theorem tail (h : InkedMarks (m :: ms)) : InkedMarks ms := h.of_subset (List.subset_cons_self _ _)

theorem head (h : InkedMarks (.token k :: ms)) : k.Inked := h k List.mem_cons_self

end InkedMarks

/-! ## Cells -/

/-- A text that is written wherever a token may stand, and after which a line may end. -/
def CellDraws (depth : Nat) (t : List Char) (ms : List Mark) : Prop :=
  ∀ p : Pen, p.Ready depth → Draws p t ms (.inside depth true false)

section

variable {depth : Nat} {k : Kind} {t u : List Char} {ms ns : List Mark}

theorem cellDraws_token (hk : k.Inked) (hbrace : ¬ k.IsBrace) :
    CellDraws depth k.spelling [.token k] := by
  intro _ hp
  have hdraws := Draws.token hp hk hbrace .done
  rw [List.append_nil] at hdraws
  exact hdraws

theorem CellDraws.append (h : CellDraws depth t ms) (h' : CellDraws depth u ns) :
    CellDraws depth (t ++ u) (ms ++ ns) :=
  fun _ hp => (h _ hp).append (h' _ (.inside true))

theorem CellDraws.cons (hk : k.Inked) (hbrace : ¬ k.IsBrace) (h : CellDraws depth t ms) :
    CellDraws depth (k.spelling ++ t) (.token k :: ms) :=
  fun _ hp => .token hp hk hbrace (h _ (.inside true))

theorem CellDraws.ne_nil (h : CellDraws depth t ms) : t ≠ [] := by
  rintro rfl
  exact nomatch (h _ (.margin .top)).eq_of_nil

theorem CellDraws.endsInk (h : CellDraws depth t ms) : Text.EndsInk t :=
  (h _ (.margin .top)).endsInk h.ne_nil

theorem cellDraws_word {word : List Char} (h : InkedMarks [.token (.word word)]) :
    CellDraws depth word [.token (.word word)] :=
  cellDraws_token h.head (by rintro (h | h) <;> cases h)

theorem cellDraws_str {literal : List Char} (h : InkedMarks [.token (.str literal)]) :
    CellDraws depth literal [.token (.str literal)] :=
  cellDraws_token h.head (by rintro (h | h) <;> cases h)

theorem cellDraws_comment {text : List Char} (h : InkedMarks [commentMark text]) :
    CellDraws depth (Text.trimEnd text) [commentMark text] :=
  cellDraws_token h.head (by rintro (h | h) <;> cases h)

theorem CellDraws.punct {p : Punct} (h : CellDraws depth t ms)
    (hp : InkedMarks (.token (.punct p) :: ms)) (hbrace : ¬ (Kind.punct p).IsBrace) :
    CellDraws depth (p.char :: t) (.token (.punct p) :: ms) :=
  CellDraws.cons hp.head hbrace h

theorem cellDraws_name {name : List Char} (h : InkedMarks ((nameKinds name).map .token)) :
    CellDraws depth name ((nameKinds name).map .token) := by
  have hname : name.takeWhile (fun c => decide (c ≠ '.')) ++
      name.dropWhile (fun c => decide (c ≠ '.')) = name := List.takeWhile_append_dropWhile
  have hdot := @head?_dropWhile_eq_false (fun c => decide (c ≠ '.')) name
  unfold nameKinds at h ⊢
  cases hdrop : name.dropWhile (fun c => decide (c ≠ '.')) with
  | nil =>
    rw [hdrop] at h
    exact cellDraws_word h
  | cons c second =>
    rw [hdrop] at h hname hdot
    obtain rfl : c = '.' := by simpa using hdot c rfl
    have hsecond : CellDraws depth second [.token (.word second)] := cellDraws_word h.tail.tail
    have hdotted := hsecond.punct h.tail (by rintro (h | h) <;> cases h)
    have hboth := hdotted.cons h.head (by rintro (h | h) <;> cases h)
    have htext : (name.takeWhile fun c => decide (c ≠ '.')) ++ Punct.dot.char :: second = name :=
      hname
    simp only [Kind.spelling, htext] at hboth
    exact hboth

/-! ## Rows -/

/-- The cells of a row are written one after the other.  Empty cells take only space. -/
inductive RowDraws (depth : Nat) : Row → List Mark → Prop
  | last {cell : List Char} {ms : List Mark} : CellDraws depth cell ms → RowDraws depth [cell] ms
  | empty {row : Row} {ms : List Mark} : RowDraws depth row ms → RowDraws depth ([] :: row) ms
  | cell {cell : List Char} {row : Row} {ms ns : List Mark} : CellDraws depth cell ms →
      RowDraws depth row ns → RowDraws depth (cell :: row) (ms ++ ns)

theorem draws_spaces {ink : Bool} (n : Nat) {q : Pen}
    (h : ∀ ink, Draws (.inside depth ink false) t ms q) :
    Draws (.inside depth ink false) (List.replicate n ' ' ++ t) ms q := by
  induction n generalizing ink with
  | zero => exact h ink
  | succ n ih => exact .space ih

theorem rowDraws_ne_nil {row : Row} (h : RowDraws depth row ms) :
    ∃ next cells, row = next :: cells := by
  cases h with
  | last => exact ⟨_, _, rfl⟩
  | empty => exact ⟨_, _, rfl⟩
  | cell => exact ⟨_, _, rfl⟩

/-- A row is written wherever its first cell may stand, which is no line's start if it is empty. -/
theorem draws_rowText {row : Row} (h : RowDraws depth row ms) {widths : List Nat}
    (hwidths : Separates widths row) {p : Pen} (hp : p.Ready depth)
    (hfirst : row.head? = some [] → ∃ ink, p = .inside depth ink false) :
    Draws p (rowText widths row) ms (.inside depth true false) := by
  induction h generalizing widths p with
  | @last cell ms hcell =>
    have htext : rowText widths [cell] = cell := by
      cases widths <;> simp [rowText]
    rw [htext]
    exact hcell _ hp
  | @empty row ms hrow ih =>
    obtain ⟨next, cells, rfl⟩ := rowDraws_ne_nil hrow
    obtain ⟨width, rest, rfl, _, hrest⟩ := separates_cons hwidths
    obtain ⟨ink, rfl⟩ := hfirst rfl
    show Draws _ (pad width [] ++ rowText rest (next :: cells)) ms _
    unfold pad
    rw [List.nil_append]
    exact draws_spaces _ fun ink => ih hrest (.inside ink) fun _ => ⟨ink, rfl⟩
  | @cell cell row ms ns hcell hrow ih =>
    obtain ⟨next, cells, rfl⟩ := rowDraws_ne_nil hrow
    obtain ⟨width, rest, rfl, _, hrest⟩ := separates_cons hwidths
    show Draws _ (pad width cell ++ rowText rest (next :: cells)) (ms ++ ns) _
    unfold pad
    rw [List.append_assoc]
    exact (hcell _ hp).append
      (draws_spaces _ fun ink => ih hrest (.inside ink) fun _ => ⟨ink, rfl⟩)

/-- A row that starts with a token is written as a cell is, and not trimmed. -/
theorem cellDraws_rowText {row : Row} (h : RowDraws depth row ms) (hfirst : row.head? ≠ some [])
    {widths : List Nat} (hwidths : Separates widths row) :
    CellDraws depth (Text.trimEnd (rowText widths row)) ms := by
  have hcell : CellDraws depth (rowText widths row) ms :=
    fun _ hp => draws_rowText h hwidths hp fun hempty => absurd hempty hfirst
  rw [hcell.endsInk.trimEnd]
  exact hcell

/-- A field: a row that starts with a token. -/
structure FieldDraws (depth : Nat) (row : Row) (ms : List Mark) : Prop where
  cells : RowDraws depth row ms
  first : row.head? ≠ some []

theorem forall₂_align_draws {block : List Row} {marks : List (List Mark)}
    (h : List.Forall₂ (FieldDraws depth) block marks) :
    List.Forall₂ (CellDraws depth) (align block) marks := by
  unfold align
  have hwidths := forall₂_rowWidths block
  generalize rowWidths block = widths at hwidths
  induction h generalizing widths with
  | nil =>
    cases hwidths
    exact .nil
  | cons hrow _ ih =>
    cases hwidths with
    | cons hseparates hmore =>
      exact .cons (cellDraws_rowText hrow.cells hrow.first hseparates) (ih _ hmore)

theorem cellDraws_solitaryText {cells : Row} (h : FieldDraws depth cells ms) :
    CellDraws depth (solitaryText cells) ms := by
  unfold solitaryText
  rw [intersperse_eq_rowText]
  exact cellDraws_rowText h.cells h.first (separates_succ_length cells)

/-! ## Fields -/

/-- The cells of a field from its type on, with or without an empty cell before the comment. -/
theorem rowDraws_typeCells {type : List Char} {tag comment : Option (List Char)}
    {gap : List (List Char)} (hgap : gap = [] ∨ gap = [[]]) :
    CellDraws depth type ms →
      InkedMarks ((tag.toList.map fun literal => .token (.str literal)) ++
        comment.toList.map commentMark) →
      RowDraws depth (type :: (tag.toList ++ match comment with
          | none => []
          | some text => gap ++ [Text.trimEnd text]))
        (ms ++ ((tag.toList.map fun literal => .token (.str literal)) ++
          comment.toList.map commentMark)) := by
  intro htype hinked
  cases comment with
  | none =>
    cases tag with
    | none =>
      have hlast := RowDraws.last htype
      rw [← List.append_nil ms] at hlast
      exact hlast
    | some literal => exact .cell htype (.last (cellDraws_str hinked))
  | some text =>
    have hlast : RowDraws depth (gap ++ [Text.trimEnd text]) [commentMark text] := by
      have hcell : RowDraws depth [Text.trimEnd text] [commentMark text] :=
        .last (cellDraws_comment hinked.right)
      rcases hgap with rfl | rfl
      · exact hcell
      · exact hcell.empty
    cases tag with
    | none => exact .cell htype hlast
    | some literal => exact .cell htype (.cell (cellDraws_str hinked.left) hlast)

theorem fieldDraws_fieldCells {name : Option (List Char)} {type : List Char}
    {tag comment : Option (List Char)} (htype : CellDraws depth type ms)
    (hinked : InkedMarks (fieldMarks name ms tag ++ comment.toList.map commentMark)) :
    FieldDraws depth (fieldCells name type tag comment)
      (fieldMarks name ms tag ++ comment.toList.map commentMark) := by
  have hgap : (if tag.isNone ∧ name.isSome then [[]] else []) = ([] : List (List Char)) ∨
      (if tag.isNone ∧ name.isSome then [[]] else []) = ([[]] : List (List Char)) := by
    split
    · exact .inr rfl
    · exact .inl rfl
  unfold fieldCells
  unfold fieldMarks at hinked ⊢
  cases name with
  | none =>
    simp only [Option.toList_none, List.map_nil, List.nil_append, List.append_assoc] at hinked ⊢
    have hcells := rowDraws_typeCells hgap htype hinked.right
    exact ⟨hcells, fun hempty => htype.ne_nil (Option.some.inj hempty)⟩
  | some word =>
    simp only [Option.toList_some, List.map_singleton, List.append_assoc] at hinked ⊢
    have hword : CellDraws depth word [.token (.word word)] := cellDraws_word hinked.left
    have hcells := rowDraws_typeCells hgap htype hinked.right.right
    exact ⟨.cell hword hcells, fun hempty => hword.ne_nil (Option.some.inj hempty)⟩

/-! ## Bodies -/

theorem draws_tabs {above : Above} (n m : Nat) {q : Pen}
    (h : Draws (.margin depth above (n + m)) t ms q) :
    Draws (.margin depth above n) (tabs m ++ t) ms q := by
  induction m generalizing n with
  | zero => exact h
  | succ m ih =>
    refine .tab (ih (n + 1) ?_)
    rw [Nat.add_right_comm, Nat.add_assoc]
    exact h

/-- A line of a body. -/
theorem draws_indented {above : Above} (h : CellDraws depth t ms) :
    Draws (.margin depth above 0) (indented depth t) (ms ++ [.feed]) (.margin depth .plain 0) := by
  unfold indented
  rw [List.append_assoc]
  refine draws_tabs 0 depth ?_
  rw [Nat.zero_add]
  exact (h _ (.margin above)).append (.feed .done)

/-- What stands above the line behind a block of fields. -/
def Above.behind (above : Above) (block : List Row) : Above :=
  if block.isEmpty then above else .plain

theorem draws_blockText (above : Above) {block : List Row} {marks : List (List Mark)}
    (h : List.Forall₂ (FieldDraws depth) block marks) :
    Draws (.margin depth above 0) (blockText depth block) (blockMarks marks)
      (.margin depth (above.behind block) 0) := by
  have hlines : ∀ {lines : List (List Char)} {marks : List (List Mark)},
      List.Forall₂ (CellDraws depth) lines marks → ∀ above : Above,
      Draws (.margin depth above 0) (lines.flatMap (indented depth)) (blockMarks marks)
        (.margin depth (if lines.isEmpty then above else .plain) 0) := by
    intro lines marks h
    induction h with
    | nil => exact fun _ => .done
    | @cons line ms lines marks hline hrest ih =>
      intro above
      have hmore := ih .plain
      rw [ite_self] at hmore
      exact (draws_indented hline).append hmore
  have halign := forall₂_align_draws h
  have hempty : (align block).isEmpty = block.isEmpty := by
    have hlength := halign.length_eq.trans h.length_eq.symm
    rw [Bool.eq_iff_iff, List.isEmpty_iff_length_eq_zero, List.isEmpty_iff_length_eq_zero, hlength]
  have hdraws := hlines halign above
  rw [hempty] at hdraws
  exact hdraws

/-- A line of a body is written in one of two ways. -/
inductive BodyLineDraws (depth : Nat) : BodyLine → Nat × List Mark → Prop
  | comment {newlines : Nat} {text : List Char} {ms : List Mark} : CellDraws depth text ms →
      BodyLineDraws depth ⟨newlines, .comment text⟩ (newlines, ms)
  | field {newlines : Nat} {cells : Row} {ms : List Mark} : FieldDraws depth cells ms →
      BodyLineDraws depth ⟨newlines, .field cells⟩ (newlines, ms)

/-- A blank line is written below the fields not yet printed or another line of the body. -/
theorem draws_gap {first : Bool} {newlines : Nat} {above : Above} {block : List Row}
    {marks : List (List Mark)} (hblock : List.Forall₂ (FieldDraws depth) block marks)
    (habove : first = true ∨ above.behind block = .plain) (f : List Row → List Char)
    (h : ∀ {above : Above} {block : List Row} {marks : List (List Mark)},
      List.Forall₂ (FieldDraws depth) block marks →
      Draws (.margin depth above 0) (f block) (blockMarks marks ++ ms)
        (.margin depth .plain 0)) :
    let apart := !first && 2 ≤ newlines
    Draws (.margin depth above 0) ((if apart then blockText depth block ++ ['\n'] else []) ++
        f (if apart then [] else block))
      (blockMarks marks ++ (gapMarks first newlines ++ ms)) (.margin depth .plain 0) := by
  intro apart
  unfold gapMarks
  show Draws _ _ (_ ++ ((if apart then [.feed] else []) ++ ms)) _
  cases hapart : apart with
  | true =>
    have hplain : above.behind block = .plain := by
      refine habove.resolve_left fun hfirst => ?_
      simp [apart, hfirst] at hapart
    rw [if_pos rfl, if_pos rfl, if_pos rfl, List.append_assoc]
    have hbefore := draws_blockText above hblock
    rw [hplain] at hbefore
    exact hbefore.append (.blankLine (h .nil))
  | false =>
    rw [if_neg Bool.false_ne_true, if_neg Bool.false_ne_true, if_neg Bool.false_ne_true]
    exact h hblock

/-- The lines of a body are written below its opening brace, or below other lines of the body. -/
theorem draws_bodyText {lines : List BodyLine} {parts : List (Nat × List Mark)}
    (h : List.Forall₂ (BodyLineDraws depth) lines parts) {first : Bool} {above : Above}
    {block : List Row} {marks : List (List Mark)}
    (hblock : List.Forall₂ (FieldDraws depth) block marks)
    (habove : (first = true ∧ lines ≠ []) ∨ above.behind block = .plain) :
    Draws (.margin depth above 0) (bodyText depth first block lines)
      (blockMarks marks ++ bodyMarks first parts) (.margin depth .plain 0) := by
  induction h generalizing first above block marks with
  | nil =>
    have hdraws := draws_blockText above hblock
    rw [habove.resolve_left fun h => h.2 rfl] at hdraws
    rw [bodyText]
    show Draws _ _ (_ ++ []) _
    rw [List.append_nil]
    exact hdraws
  | @cons l part lines parts hline _ ih =>
    -- a line that belongs to no block is printed after the block before it
    have hapart : ∀ {above : Above} {block : List Row} {marks : List (List Mark)} {t : List Char},
        List.Forall₂ (FieldDraws depth) block marks → CellDraws depth t part.2 →
        Draws (.margin depth above 0)
          (blockText depth block ++ indented depth t ++ bodyText depth false [] lines)
          (blockMarks marks ++ (part.2 ++ .feed :: bodyMarks false parts))
          (.margin depth .plain 0) := by
      intro above block marks t hblock ht
      have hmarks : part.2 ++ .feed :: bodyMarks false parts =
          (part.2 ++ [.feed]) ++ bodyMarks false parts := List.append_cons _ _ _
      rw [List.append_assoc, hmarks]
      exact (draws_blockText _ hblock).append ((draws_indented ht).append (ih .nil (.inr rfl)))
    have hgap : first = true ∨ above.behind block = .plain := habove.imp_left And.left
    rw [bodyText]
    cases hline with
    | @comment newlines text ms htext =>
      let f (block : List Row) : List Char :=
        blockText depth block ++ indented depth text ++ bodyText depth false [] lines
      exact draws_gap hblock hgap f fun hblock => hapart hblock htext
    | @field newlines cells ms hcells =>
      let f (block : List Row) : List Char :=
        if spansLines cells then
          blockText depth block ++ indented depth (solitaryText cells) ++
            bodyText depth false [] lines
        else bodyText depth false (block ++ [cells]) lines
      refine draws_gap hblock hgap f fun {above block marks} hblock => ?_
      show Draws _ (if spansLines cells then _ else _) _ _
      split
      · exact hapart hblock (cellDraws_solitaryText hcells)
      · have hjoined := List.rel_append hblock (.cons hcells .nil)
        have hbehind : above.behind (block ++ [cells]) = .plain := by
          unfold Above.behind
          simp
        have hdraws := @ih false above _ _ hjoined (.inr hbehind)
        rw [blockMarks_concat, List.append_assoc, List.append_assoc] at hdraws
        exact hdraws

/-! ## Types -/

theorem cellDraws_emptyBraces {word : List Char} (h : InkedMarks [.token (.word word)]) :
    CellDraws depth (word ++ ['\x7b', '\x7d'])
      [.token (.word word), .token (.punct .openBrace), .token (.punct .closeBrace)] :=
  fun _ hp => ((cellDraws_word h) _ hp).append (.opens (.closes .done))

/-- A struct that takes several lines. -/
theorem cellDraws_braces {above : Above} (hword : InkedMarks [.token (.word "struct".toList)])
    (habove : above ≠ .blank)
    (h : Draws (.margin (depth + 1) .opener 0) t ms (.margin (depth + 1) above 0)) :
    CellDraws depth ("struct \x7b\n".toList ++ t ++ tabs depth ++ ['\x7d'])
      (.token (.word "struct".toList) :: .token (.punct .openBrace) ::
        (.feed :: ms ++ [.token (.punct .closeBrace)])) := by
  intro p hp
  have hclose : Draws (.margin (depth + 1) above 0) (tabs depth ++ ['\x7d'])
      [.token (.punct .closeBrace)] (.inside depth true false) := by
    refine draws_tabs 0 depth ?_
    rw [Nat.zero_add]
    exact .closesBody habove .done
  have hbody := h.append hclose
  have hopen : Draws (.inside depth true false)
      (' ' :: '\x7b' :: '\n' :: (t ++ (tabs depth ++ ['\x7d'])))
      (.token (.punct .openBrace) :: .feed :: (ms ++ [.token (.punct .closeBrace)]))
      (.inside depth true false) := .space (.opens (.feed hbody))
  have hall := (cellDraws_word hword _ hp).append hopen
  simp only [List.append_assoc]
  exact hall

/-- The parts of a body fit on their lines if what stands between the braces does. -/
theorem inkedMarks_of_interior {multiline : Bool} {parts : List (Nat × List Mark)}
    (h : InkedMarks (interiorMarks multiline parts)) : ∀ part ∈ parts, InkedMarks part.2 := by
  have hbody : ∀ (first : Bool) (parts : List (Nat × List Mark)),
      InkedMarks (bodyMarks first parts) → ∀ part ∈ parts, InkedMarks part.2 := by
    intro first parts
    induction parts generalizing first with
    | nil => exact fun _ _ hpart => nomatch hpart
    | cons part rest ih =>
      intro h other hother
      have hrest : InkedMarks (part.2 ++ .feed :: bodyMarks false rest) := InkedMarks.right h
      rcases List.mem_cons.mp hother with rfl | hother
      · exact hrest.left
      · exact ih false hrest.right.tail other hother
  unfold interiorMarks at h
  cases parts with
  | nil => exact fun _ hpart => nomatch hpart
  | cons part rest => exact hbody true _ (InkedMarks.tail h)

theorem cellDraws_structText {multiline : Bool} {lines : List BodyLine}
    {parts : List (Nat × List Mark)} (hword : InkedMarks [.token (.word "struct".toList)])
    (h : List.Forall₂ (BodyLineDraws (depth + 1)) lines parts) :
    CellDraws depth (structText depth multiline lines)
      (.token (.word "struct".toList) :: .token (.punct .openBrace) ::
        (interiorMarks multiline parts ++ [.token (.punct .closeBrace)])) := by
  unfold structText interiorMarks
  cases h with
  | nil =>
    cases multiline with
    | true =>
      have hinside : Draws (.margin (depth + 1) .opener 0) [] [] (.margin (depth + 1) .opener 0) :=
        .done
      have hbraces := cellDraws_braces hword (by decide) hinside
      rw [List.append_nil] at hbraces
      exact hbraces
    | false => exact cellDraws_emptyBraces hword
  | cons hline hlines =>
    rw [List.isEmpty_cons, List.isEmpty_cons, if_neg Bool.false_ne_true, if_neg Bool.false_ne_true]
    exact cellDraws_braces hword (by decide)
      (draws_bodyText (.cons hline hlines) .nil (.inl ⟨rfl, List.cons_ne_nil _ _⟩))

end

mutual

/-- A type is written wherever a token may stand. -/
theorem cellDraws_type : ∀ (x : TypeExpr) (depth : Nat), InkedMarks x.marks →
    CellDraws depth (x.text depth) x.marks
  | .named name, depth, h => cellDraws_name h
  | .pointer target, depth, h =>
    (cellDraws_type target depth h.tail).punct h (by rintro (h | h) <;> cases h)
  | .slice element, depth, h =>
    ((cellDraws_type element depth h.tail.tail).punct h.tail (by rintro (h | h) <;> cases h)).punct
      h (by rintro (h | h) <;> cases h)
  | .array digits element, depth, h => by
    have helement := cellDraws_type element depth h.tail.tail.tail
    have hclose := helement.punct h.tail.tail (by rintro (h | h) <;> cases h)
    have hdigits := hclose.cons h.tail.head (by rintro (h | h) <;> cases h)
    exact hdigits.punct h (by rintro (h | h) <;> cases h)
  | .map key value, depth, h => by
    have hvalue := cellDraws_type value depth h.tail.tail.right.tail
    have hclose := hvalue.punct h.tail.tail.right (by rintro (h | h) <;> cases h)
    have hinside := (cellDraws_type key depth h.tail.tail.left).append hclose
    have hopen := hinside.punct h.tail (by rintro (h | h) <;> cases h)
    have hall := hopen.cons h.head (by rintro (h | h) <;> cases h)
    show CellDraws depth ("map[".toList ++ key.text depth ++ ']' :: value.text depth) _
    rw [List.append_assoc]
    exact hall
  | .emptyInterface, depth, h =>
    cellDraws_emptyBraces (h.of_subset (List.cons_subset_cons _ (List.nil_subset _)))
  | .struct members multiline, depth, h =>
    cellDraws_structText (h.of_subset (List.cons_subset_cons _ (List.nil_subset _)))
      (forall₂_bodyLineDraws members (depth + 1) (inkedMarks_of_interior h.tail.tail.left))

/-- The lines of a struct's body are written. -/
theorem forall₂_bodyLineDraws : ∀ (ms : List Member) (depth : Nat),
    (∀ part ∈ memberMarks ms, InkedMarks part.2) →
    List.Forall₂ (BodyLineDraws depth) (bodyLines depth ms) (memberMarks ms)
  | [], _, _ => .nil
  | .comment newlines text :: rest, depth, h =>
    .cons (.comment (cellDraws_comment (h _ List.mem_cons_self)))
      (forall₂_bodyLineDraws rest depth fun part hpart => h part (List.mem_cons_of_mem _ hpart))
  | .field newlines name type tag comment :: rest, depth, h => by
    have hfield : InkedMarks (fieldMarks name type.marks tag ++ comment.toList.map commentMark) :=
      h _ List.mem_cons_self
    have htype := cellDraws_type type depth hfield.left.left.right
    exact .cons (.field (fieldDraws_fieldCells htype hfield))
      (forall₂_bodyLineDraws rest depth fun part hpart => h part (List.mem_cons_of_mem _ hpart))

end

/-! ## Files -/

theorem cellDraws_item (item : Item) (h : InkedMarks item.marks) :
    CellDraws 0 item.text item.marks := by
  obtain ⟨_, decl⟩ := item
  have hspaced : ∀ {word t : List Char} {ms : List Mark}, InkedMarks [.token (.word word)] →
      CellDraws 0 t ms → CellDraws 0 (word ++ ' ' :: t) (.token (.word word) :: ms) :=
    fun hword ht _ hp => (cellDraws_word hword _ hp).append (.space (ht _ (.inside false)))
  have hfirst : ∀ {m : Mark} {ms : List Mark}, InkedMarks (m :: ms) → InkedMarks [m] :=
    fun h => h.of_subset (List.cons_subset_cons _ (List.nil_subset _))
  cases decl with
  | comment text => exact cellDraws_comment h
  | package name => exact hspaced (hfirst h) (cellDraws_word h.tail)
  | type name x =>
    have htype := hspaced (hfirst h.tail) (cellDraws_type x 0 h.tail.tail)
    have hall := hspaced (hfirst h) htype
    show CellDraws 0 ("type ".toList ++ name ++ ' ' :: x.text 0) _
    rw [List.append_assoc]
    exact hall

/-- An item is written behind the one before it, on the same line or below. -/
theorem draws_separator (before : List Item) (item : Item) (after : List Item) :
    ∃ q : Pen, q.Ready 0 ∧ Draws (.inside 0 true false) (separator before item after)
      (separatorMarks before item after) q := by
  unfold separator separatorMarks
  split
  · exact ⟨_, .inside false, .space .done⟩
  · split
    · exact ⟨_, .margin .blank, .feed (.blankLine .done)⟩
    · exact ⟨_, .margin .plain, .feed .done⟩

theorem draws_itemsText (before items : List Item) (h : InkedMarks (itemsMarks before items)) :
    Draws (.inside 0 true false) (itemsText before items) (itemsMarks before items)
      (.inside 0 true false) := by
  induction items generalizing before with
  | nil => exact .done
  | cons item after ih =>
    obtain ⟨q, hq, hseparator⟩ := draws_separator before item after
    have hmarks : InkedMarks (item.marks ++ itemsMarks (item :: before) after) := InkedMarks.right h
    have hitem := cellDraws_item item hmarks.left q hq
    have hrest := ih (item :: before) hmarks.right
    show Draws _ (separator before item after ++ item.text ++ _) _ _
    rw [List.append_assoc]
    exact hseparator.append (hitem.append hrest)

/-- The layout of a file whose tokens fit on their lines is written by the rules. -/
theorem draws_fileText {items : List Item} (hitems : items ≠ [])
    (h : InkedMarks (fileMarks items)) :
    Draws (.margin 0 .top 0) (fileText items) (fileMarks items) (.margin 0 .plain 0) := by
  cases items with
  | nil => exact absurd rfl hitems
  | cons item rest =>
    have hmarks : InkedMarks (item.marks ++ (itemsMarks [item] rest ++ [.feed])) := h
    have hitem := cellDraws_item item hmarks.left _ (.margin .top)
    have hrest := draws_itemsText [item] rest hmarks.right.left
    show Draws _ (item.text ++ itemsText [item] rest ++ ['\n']) _ _
    rw [List.append_assoc]
    exact hitem.append (hrest.append (.feed .done))

end SchemaToGo.Go
