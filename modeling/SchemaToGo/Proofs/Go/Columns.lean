import SchemaToGo.Go.Columns
import SchemaToGo.Proofs.Go.Token.Cuts
import Mathlib.Data.List.Forall2
set_option autoImplicit false

/-!
# Columns keep cells apart

Every block is wider than its cells, so that a space follows each cell that is not empty, except for
the last cell of a row.  So a laid out row is cut into the marks of its cells: `cuts_align`.
-/

namespace SchemaToGo.Go

/-! ## Widths -/

/-- The width leaves a space after the cell, if there is anything in it. -/
def Wide (width : Nat) (cell : List Char) : Prop := cell = [] ∨ cell.length < width

theorem le_foldr_max {n : Nat} {ns : List Nat} (h : n ∈ ns) : n ≤ ns.foldr max 0 := by
  induction ns with
  | nil => cases h
  | cons m rest ih =>
    show n ≤ max m (rest.foldr max 0)
    rcases List.mem_cons.mp h with rfl | h
    · exact Nat.le_max_left _ _
    · exact Nat.le_trans (ih h) (Nat.le_max_right _ _)

theorem wide_blockWidth (column : Nat) {rows : List Row} {row : Row} (h : row ∈ rows) :
    Wide (blockWidth column rows) (row.getD column []) := by
  have hle := le_foldr_max
    (List.mem_map_of_mem (f := fun row : Row => (row.getD column []).length) h)
  unfold blockWidth
  split
  · next hzero =>
    rw [hzero] at hle
    exact .inl (List.length_eq_zero_iff.mp (Nat.le_zero.mp hle))
  · next n hsucc =>
    rw [hsucc] at hle
    exact .inr (Nat.lt_succ_of_le hle)

/-- The width is wide enough for a row's cell in a column. -/
def WideFor (column : Nat) (width : Nat) (row : Row) : Prop :=
  row.hasColumn column = true → Wide width (row.getD column [])

theorem forall₂_replicate {α β : Type} {R : α → β → Prop} {a : α} {bs : List β}
    (h : ∀ b ∈ bs, R a b) : List.Forall₂ R (List.replicate bs.length a) bs := by
  induction bs with
  | nil => exact .nil
  | cons b rest ih =>
    exact .cons (h b List.mem_cons_self) (ih fun x hx => h x (List.mem_cons_of_mem _ hx))

theorem forall₂_columnWidths (column : Nat) (rows : List Row) :
    List.Forall₂ (WideFor column) (columnWidths column rows) rows := by
  fun_induction columnWidths column rows with
  | case1 => exact .nil
  | case2 row rest hrow block ih =>
    have hblock : List.Forall₂ (WideFor column)
        (List.replicate block.length (blockWidth column block)) block :=
      forall₂_replicate fun b hb _ => wide_blockWidth column hb
    have hrows : row :: rest = block ++ rest.dropWhile (Row.hasColumn column) := by
      show row :: rest = row :: (rest.takeWhile _ ++ _)
      rw [List.takeWhile_append_dropWhile]
    rw [hrows]
    exact List.rel_append hblock ih
  | case3 row rest hrow ih =>
    exact .cons (fun h => absurd h hrow) ih

theorem forall₂_zipWith_cons {α β : Type} {R : α → β → Prop} {S : List α → β → Prop}
    {as : List α} {ass : List (List α)} {bs : List β} (h : List.Forall₂ R as bs)
    (h' : List.Forall₂ S ass bs) :
    List.Forall₂ (fun consed b => ∃ a rest, consed = a :: rest ∧ R a b ∧ S rest b)
      (List.zipWith List.cons as ass) bs := by
  induction h generalizing ass with
  | nil => cases h'; exact .nil
  | cons hr _ ih =>
    cases h' with
    | cons hs hmore => exact .cons ⟨_, _, rfl, hr, hs⟩ (ih hmore)

/-- The widths in some columns are wide enough for the rows' cells in them. -/
theorem forall₂_widths (rows : List Row) (columns : List Nat) :
    List.Forall₂ (fun widths row =>
        List.Forall₂ (fun column width => WideFor column width row) columns widths)
      (columns.foldr (fun column widths => List.zipWith List.cons (columnWidths column rows) widths)
        (rows.map fun _ => [])) rows := by
  induction columns with
  | nil =>
    rw [List.foldr_nil, List.forall₂_map_left_iff, List.forall₂_same]
    exact fun _ _ => .nil
  | cons column rest ih =>
    refine (forall₂_zipWith_cons (forall₂_columnWidths column rows) ih).imp ?_
    rintro _ row ⟨width, widths, rfl, hwidth, hwidths⟩
    exact .cons hwidth hwidths

/-- The widths keep a row's cells apart. -/
def Separates (widths : List Nat) (row : Row) : Prop :=
  ∀ column, column + 1 < row.length →
    ∃ width, widths[column]? = some width ∧ Wide width (row.getD column [])

theorem separates_cons {widths : List Nat} {cell next : List Char} {cells : Row}
    (h : Separates widths (cell :: next :: cells)) :
    ∃ width rest, widths = width :: rest ∧ Wide width cell ∧ Separates rest (next :: cells) := by
  obtain ⟨width, hfirst, hwide⟩ := h 0 (by simp)
  cases widths with
  | nil => cases hfirst
  | cons _ rest =>
    cases hfirst
    refine ⟨width, rest, rfl, hwide, fun column hcolumn => ?_⟩
    obtain ⟨width', hwidth', hwide'⟩ := h (column + 1) (Nat.succ_lt_succ hcolumn)
    exact ⟨width', hwidth', hwide'⟩

/-- The widths of a table keep the cells of its rows apart. -/
theorem forall₂_rowWidths (rows : List Row) : List.Forall₂ Separates (rowWidths rows) rows := by
  have hcount : ∀ row ∈ rows, row.length - 1 ≤ columnCount rows := fun row hrow =>
    le_foldr_max (List.mem_map_of_mem (f := fun row : Row => row.length - 1) hrow)
  obtain ⟨hsame, hwidths⟩ := List.forall₂_iff_zip.mp (forall₂_widths rows _)
  refine List.forall₂_iff_zip.mpr ⟨hsame, fun {widths row} hpair column hcolumn => ?_⟩
  have hcolumns := hwidths hpair
  have hlength := hcount row (List.of_mem_zip hpair).2
  have hlt : column < (List.range (columnCount rows)).length := by
    rw [List.length_range]
    omega
  have hlt' : column < widths.length := hcolumns.length_eq ▸ hlt
  have hwide := hcolumns.get hlt hlt'
  simp only [List.get_eq_getElem, List.getElem_range] at hwide
  exact ⟨widths[column], List.getElem?_eq_getElem hlt',
    hwide (by unfold Row.hasColumn; exact decide_eq_true hcolumn)⟩

/-! ## Rows -/

/-- A line that ends in ink is cut into marks up to its end. -/
def LineCuts (t : List Char) (ms : List Mark) : Prop :=
  Text.EndsInk t ∧ ∀ rest, Cuts (t ++ '\n' :: rest) ms ('\n' :: rest)

/-- A row is cut into the marks of its cells: the last one up to the end of the line, the others up
to a space. -/
inductive RowCuts : Row → List Mark → Prop
  | last {cell : List Char} {ms : List Mark} : LineCuts cell ms → RowCuts [cell] ms
  | empty {row : Row} {ms : List Mark} : RowCuts row ms → RowCuts ([] :: row) ms
  | cell {cell : List Char} {row : Row} {ms ns : List Mark} : cell ≠ [] →
      (∀ rest, Cuts (cell ++ ' ' :: rest) ms (' ' :: rest)) → RowCuts row ns →
      RowCuts (cell :: row) (ms ++ ns)

theorem cuts_spaces (n : Nat) (rest : List Char) :
    Cuts (List.replicate n ' ' ++ rest) [] rest :=
  cuts_blanks (fun c hc => by rw [List.eq_of_mem_replicate hc]; rfl) rest

theorem rowCuts_ne_nil {row : Row} {ms : List Mark} (h : RowCuts row ms) :
    ∃ next cells, row = next :: cells := by
  cases h with
  | last => exact ⟨_, _, rfl⟩
  | empty => exact ⟨_, _, rfl⟩
  | cell => exact ⟨_, _, rfl⟩

/-- A row whose cells are kept apart is cut into their marks. -/
theorem lineCuts_rowText {row : Row} {ms : List Mark} (h : RowCuts row ms) {widths : List Nat}
    (hwidths : Separates widths row) : LineCuts (rowText widths row) ms := by
  induction h generalizing widths with
  | @last cell ms hline =>
    have htext : rowText widths [cell] = cell := by
      cases widths <;> simp [rowText]
    rw [htext]
    exact hline
  | @empty row ms hrow ih =>
    obtain ⟨next, cells, rfl⟩ := rowCuts_ne_nil hrow
    obtain ⟨width, rest, rfl, _, hrest⟩ := separates_cons hwidths
    obtain ⟨hink, hcuts⟩ := ih hrest
    refine ⟨hink.append _, fun more => ?_⟩
    show Cuts (pad width [] ++ rowText rest (next :: cells) ++ _) ms _
    unfold pad
    rw [List.nil_append, List.append_assoc]
    exact (cuts_spaces _ _).append (hcuts more)
  | @cell cell row ms ns hne hcell hrow ih =>
    obtain ⟨next, cells, rfl⟩ := rowCuts_ne_nil hrow
    obtain ⟨width, rest, rfl, hwide, hrest⟩ := separates_cons hwidths
    obtain ⟨hink, hcuts⟩ := ih hrest
    refine ⟨hink.append _, fun more => ?_⟩
    obtain ⟨spaces, hspaces⟩ : ∃ n, width - cell.length = n + 1 := by
      have hlt := hwide.resolve_left hne
      exact ⟨width - cell.length - 1, by omega⟩
    show Cuts (pad width cell ++ rowText rest (next :: cells) ++ _) (ms ++ ns) _
    unfold pad
    rw [hspaces, List.append_assoc, List.append_assoc]
    exact (hcell _).append ((cuts_spaces (spaces + 1) _).append (hcuts more))

/-- The lines of a table are cut into the marks of its rows. -/
theorem forall₂_align {rows : List Row} {marks : List (List Mark)}
    (h : List.Forall₂ RowCuts rows marks) : List.Forall₂ LineCuts (align rows) marks := by
  unfold align
  have hwidths := forall₂_rowWidths rows
  generalize rowWidths rows = widths at hwidths
  induction h generalizing widths with
  | nil => cases hwidths; exact .nil
  | cons hrow _ ih =>
    cases hwidths with
    | cons hseparates hmore =>
      have hline := lineCuts_rowText hrow hseparates
      rw [← hline.1.trimEnd] at hline
      exact .cons hline (ih _ hmore)

end SchemaToGo.Go
