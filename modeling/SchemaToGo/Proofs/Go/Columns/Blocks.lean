import SchemaToGo.Proofs.Go.Columns
import Mathlib.Data.List.GetD
import Mathlib.Data.List.TakeWhile
import Mathlib.Order.Bounds.Basic
set_option autoImplicit false

/-!
# Blocks of a table

Rows share a block of a column if they and all rows between them have a cell in it.  A block of
empty cells takes no space, and any other block is one wider than its longest cell.  A row shares
the blocks of all columns up to one with the rows that it shares the block of that column with, so
in these rows the cells of the next column start at one offset.  Main statement: `align_elastic`.

Normative source: SPEC_FULL.md section 4.4, on alignment.
-/

namespace SchemaToGo.Go

/-! ## Blocks -/

/-- The row has a cell in the column, and not as its last. -/
def HasCell (rows : List Row) (column i : Nat) : Prop :=
  ∃ row, rows[i]? = some row ∧ column + 1 < row.length

/-- Two rows share a block of the column: they and all rows between them have a cell in it. -/
def SharesBlock (rows : List Row) (column i j : Nat) : Prop :=
  ∀ k, min i j ≤ k → k ≤ max i j → HasCell rows column k

/-- The cell of a row in a column. -/
def cellAt (rows : List Row) (column i : Nat) : List Char := (rows[i]?.getD []).getD column []

/-- The lengths of the cells in the block that a row has in a column. -/
def blockLengths (rows : List Row) (column i : Nat) : Set Nat :=
  { n | ∃ j, SharesBlock rows column i j ∧ (cellAt rows column j).length = n }

/-- The width of a block whose cells have some lengths. -/
inductive IsWidth (lengths : Set Nat) : Nat → Prop
  /-- all cells are empty -/
  | empty : (∀ n ∈ lengths, n = 0) → IsWidth lengths 0
  | longest {n : Nat} : 0 < n → IsGreatest lengths n → IsWidth lengths (n + 1)

namespace IsWidth

variable {lengths : Set Nat} {m n width : Nat}

theorem unique (h : IsWidth lengths m) (h' : IsWidth lengths n) : m = n := by
  cases h with
  | empty hempty =>
    cases h' with
    | empty => rfl
    | longest hpos hgreatest => exact absurd (hempty _ hgreatest.1) (Nat.ne_of_gt hpos)
  | longest hpos hgreatest =>
    cases h' with
    | empty hempty => exact absurd (hempty _ hgreatest.1) (Nat.ne_of_gt hpos)
    | longest _ hgreatest' => rw [hgreatest.unique hgreatest']

/-- A cell that is not empty is shorter than its block is wide. -/
theorem lt_of_pos (h : IsWidth lengths width) (hn : n ∈ lengths) (hpos : 0 < n) : n < width := by
  cases h with
  | empty hempty => exact absurd (hempty n hn) (Nat.ne_of_gt hpos)
  | longest _ hgreatest => exact Nat.lt_succ_of_le (hgreatest.2 hn)

theorem le (h : IsWidth lengths width) (hn : n ∈ lengths) : n ≤ width := by
  rcases Nat.eq_zero_or_pos n with rfl | hpos
  · exact Nat.zero_le _
  · exact Nat.le_of_lt (h.lt_of_pos hn hpos)

end IsWidth

section

variable {rows front rest : List Row} {column i j : Nat}

theorem HasCell.earlier (h : HasCell rows column i) {earlier : Nat} (hle : earlier ≤ column) :
    HasCell rows earlier i := by
  obtain ⟨row, hrow, hlt⟩ := h
  exact ⟨row, hrow, by omega⟩

namespace SharesBlock

theorem refl (h : HasCell rows column i) : SharesBlock rows column i i := by
  intro k hmin hmax
  obtain rfl : k = i := by omega
  exact h

theorem left (h : SharesBlock rows column i j) : HasCell rows column i :=
  h i (Nat.min_le_left _ _) (Nat.le_max_left _ _)

theorem right (h : SharesBlock rows column i j) : HasCell rows column j :=
  h j (Nat.min_le_right _ _) (Nat.le_max_right _ _)

theorem symm (h : SharesBlock rows column i j) : SharesBlock rows column j i := by
  intro k hmin hmax
  exact h k (by omega) (by omega)

theorem trans {k : Nat} (h : SharesBlock rows column i j) (h' : SharesBlock rows column j k) :
    SharesBlock rows column i k := by
  intro l hmin hmax
  by_cases hl : min i j ≤ l ∧ l ≤ max i j
  · exact h l hl.1 hl.2
  · exact h' l (by omega) (by omega)

/-- A block lies within a block of every earlier column. -/
theorem earlier (h : SharesBlock rows column i j) {earlier : Nat} (hle : earlier ≤ column) :
    SharesBlock rows earlier i j :=
  fun k hmin hmax => (h k hmin hmax).earlier hle

/-- The rows of a block have one width to agree on. -/
theorem blockLengths_eq (h : SharesBlock rows column i j) :
    blockLengths rows column i = blockLengths rows column j := by
  ext n
  constructor
  · rintro ⟨k, hk, hn⟩
    exact ⟨k, h.symm.trans hk, hn⟩
  · rintro ⟨k, hk, hn⟩
    exact ⟨k, h.trans hk, hn⟩

end SharesBlock

theorem length_cellAt_mem (h : HasCell rows column i) :
    (cellAt rows column i).length ∈ blockLengths rows column i :=
  ⟨i, .refl h, rfl⟩

/-! ## Rows behind others -/

theorem hasCell_append_right :
    HasCell (front ++ rest) column (front.length + i) ↔ HasCell rest column i := by
  unfold HasCell
  rw [List.getElem?_append_right (Nat.le_add_right _ _), Nat.add_sub_cancel_left]

theorem cellAt_append_right :
    cellAt (front ++ rest) column (front.length + i) = cellAt rest column i := by
  unfold cellAt
  rw [List.getElem?_append_right (Nat.le_add_right _ _), Nat.add_sub_cancel_left]

theorem sharesBlock_append_right :
    SharesBlock (front ++ rest) column (front.length + i) (front.length + j) ↔
      SharesBlock rest column i j := by
  constructor
  · intro h k hmin hmax
    exact hasCell_append_right.mp (h (front.length + k) (by omega) (by omega))
  · intro h k hmin hmax
    obtain ⟨l, rfl⟩ : ∃ l, k = front.length + l := ⟨k - front.length, by omega⟩
    exact hasCell_append_right.mpr (h l (by omega) (by omega))

/-- Behind a row without a cell in the column, at the border or directly before it, the rows have
blocks of their own. -/
theorem blockLengths_append_right {gap : Nat} (hgap : ¬ HasCell (front ++ rest) column gap)
    (hle : gap ≤ front.length) (hborder : front.length ≤ gap + 1) :
    blockLengths (front ++ rest) column (front.length + i) = blockLengths rest column i := by
  ext n
  constructor
  · rintro ⟨j, hj, hn⟩
    have hbehind : front.length ≤ j := by
      by_contra hbefore
      exact hgap (hj gap (by omega) (by omega))
    obtain ⟨j, rfl⟩ : ∃ l, j = front.length + l := ⟨j - front.length, by omega⟩
    rw [cellAt_append_right] at hn
    exact ⟨j, sharesBlock_append_right.mp hj, hn⟩
  · rintro ⟨j, hj, hn⟩
    have hcell : cellAt (front ++ rest) column (front.length + j) = cellAt rest column j :=
      cellAt_append_right
    rw [← hcell] at hn
    exact ⟨front.length + j, sharesBlock_append_right.mpr hj, hn⟩

/-- Rows that all have a cell in the column, up to one that has none, are a block. -/
theorem blockLengths_append_left (hfront : ∀ row ∈ front, column + 1 < row.length)
    (hrest : ¬ HasCell (front ++ rest) column front.length) (hi : i < front.length) :
    blockLengths (front ++ rest) column i =
      { n | ∃ row ∈ front, (row.getD column []).length = n } := by
  have hcell : ∀ j, j < front.length → ∃ row ∈ front, (front ++ rest)[j]? = some row :=
    fun j hj => ⟨front[j], List.getElem_mem hj, by
      rw [List.getElem?_append_left hj, List.getElem?_eq_getElem hj]⟩
  ext n
  constructor
  · rintro ⟨j, hj, rfl⟩
    have hlt : j < front.length := by
      by_contra hbehind
      exact hrest (hj front.length (by omega) (by omega))
    obtain ⟨row, hmem, hrow⟩ := hcell j hlt
    refine ⟨row, hmem, ?_⟩
    unfold cellAt
    rw [hrow]
    rfl
  · rintro ⟨row, hmem, rfl⟩
    obtain ⟨j, hj, rfl⟩ := List.mem_iff_getElem.mp hmem
    refine ⟨j, fun k hmin hmax => ?_, ?_⟩
    · obtain ⟨row, hrow, heq⟩ := hcell k (by omega)
      exact ⟨row, heq, hfront row hrow⟩
    · unfold cellAt
      rw [List.getElem?_append_left hj, List.getElem?_eq_getElem hj]
      rfl

/-! ## Widths -/

theorem foldr_max_eq_zero_or_mem (ns : List Nat) : ns.foldr max 0 = 0 ∨ ns.foldr max 0 ∈ ns := by
  induction ns with
  | nil => exact .inl rfl
  | cons n rest ih =>
    show max n (rest.foldr max 0) = 0 ∨ max n (rest.foldr max 0) ∈ n :: rest
    rcases Nat.le_total (rest.foldr max 0) n with hle | hle
    · rw [Nat.max_eq_left hle]
      exact .inr List.mem_cons_self
    · rw [Nat.max_eq_right hle]
      exact ih.imp_right (List.mem_cons_of_mem n)

theorem isWidth_blockWidth (column : Nat) (block : List Row) :
    IsWidth { n | ∃ row ∈ block, (row.getD column []).length = n } (blockWidth column block) := by
  have hle : ∀ n, (∃ row ∈ block, (row.getD column []).length = n) →
      n ≤ (block.map fun row => (row.getD column []).length).foldr max 0 := by
    rintro n ⟨row, hrow, rfl⟩
    exact le_foldr_max
      (List.mem_map_of_mem (f := fun row : Row => (row.getD column []).length) hrow)
  have hmem := foldr_max_eq_zero_or_mem (block.map fun row => (row.getD column []).length)
  unfold blockWidth
  generalize (block.map fun row => (row.getD column []).length).foldr max 0 = longest at hle hmem
  cases longest with
  | zero => exact .empty fun n hn => Nat.le_zero.mp (hle n hn)
  | succ n =>
    obtain ⟨row, hrow, hn⟩ := List.mem_map.mp (hmem.resolve_left (Nat.succ_ne_zero n))
    exact .longest (Nat.succ_pos n) ⟨⟨row, hrow, hn⟩, fun m hm => hle m hm⟩

/-- A row without a cell in the column ends the stretch of those that have one. -/
theorem not_hasCell_dropWhile (front : List Row) (column : Nat) (rest : List Row) :
    ¬ HasCell (front ++ rest.dropWhile (Row.hasColumn column)) column front.length := by
  rintro ⟨row, hrow, hlt⟩
  have hhead := List.head?_dropWhile_not (Row.hasColumn column) rest
  rw [List.getElem?_append_right (Nat.le_refl _), Nat.sub_self, ← List.head?_eq_getElem?] at hrow
  rw [hrow] at hhead
  exact of_decide_eq_false hhead hlt

/-- The widths that a column has in its rows are those of their blocks. -/
theorem isWidth_columnWidths (column : Nat) (rows : List Row) : ∀ i, HasCell rows column i →
    IsWidth (blockLengths rows column i) ((columnWidths column rows).getD i 0) := by
  fun_induction columnWidths column rows with
  | case1 =>
    rintro i ⟨row, hrow, _⟩
    cases hrow
  | case2 row rest hrow block ih =>
    intro i h
    have hblock : ∀ row ∈ block, column + 1 < row.length := by
      intro r hr
      rcases List.mem_cons.mp hr with rfl | hr
      · exact of_decide_eq_true hrow
      · have hcolumn : r.hasColumn column = true := List.mem_takeWhile_imp hr
        exact of_decide_eq_true hcolumn
    have hrows : row :: rest = block ++ rest.dropWhile (Row.hasColumn column) := by
      show row :: rest = row :: (rest.takeWhile _ ++ _)
      rw [List.takeWhile_append_dropWhile]
    have hend := not_hasCell_dropWhile block column rest
    have hlength : (List.replicate block.length (blockWidth column block)).length =
        block.length := List.length_replicate
    rw [hrows] at h ⊢
    by_cases hi : i < block.length
    · rw [List.getD_append _ _ _ _ (by omega), List.getD_replicate _ hi,
        blockLengths_append_left hblock hend hi]
      exact isWidth_blockWidth column block
    · obtain ⟨k, rfl⟩ : ∃ k, i = block.length + k := ⟨i - block.length, by omega⟩
      rw [List.getD_append_right _ _ _ _ (by omega), hlength, Nat.add_sub_cancel_left,
        blockLengths_append_right hend (Nat.le_refl _) (Nat.le_succ _)]
      exact ih k (hasCell_append_right.mp h)
  | case3 row rest hrow ih =>
    intro i h
    have hgap : ¬ HasCell ([row] ++ rest) column 0 := by
      rintro ⟨_, heq, hlt⟩
      cases heq
      exact hrow (decide_eq_true hlt)
    cases i with
    | zero => exact absurd h hgap
    | succ k =>
      have hsucc : k + 1 = [row].length + k := Nat.add_comm k 1
      have hbehind : HasCell ([row] ++ rest) column ([row].length + k) := hsucc ▸ h
      rw [List.getD_cons_succ, hsucc]
      show IsWidth (blockLengths ([row] ++ rest) column _) _
      rw [blockLengths_append_right hgap (Nat.zero_le _) (Nat.le_refl _)]
      exact ih k (hasCell_append_right.mp hbehind)

theorem length_columnWidths (column : Nat) (rows : List Row) :
    (columnWidths column rows).length = rows.length :=
  (forall₂_columnWidths column rows).length_eq

/-- The widths of the rows' columns, one row after the other. -/
theorem rowWidths_eq (rows : List Row) :
    rowWidths rows = rows.mapIdx fun i _ =>
      (List.range (columnCount rows)).map fun column => (columnWidths column rows).getD i 0 := by
  have hcolumns : ∀ columns : List Nat,
      columns.foldr (fun column widths => List.zipWith List.cons (columnWidths column rows) widths)
          (rows.map fun _ => []) =
        rows.mapIdx fun i _ => columns.map fun column => (columnWidths column rows).getD i 0 := by
    intro columns
    induction columns with
    | nil =>
      refine List.ext_getElem? fun i => ?_
      rw [List.foldr_nil, List.getElem?_map, List.getElem?_mapIdx]
      rfl
    | cons column rest ih =>
      rw [List.foldr_cons, ih]
      refine List.ext_getElem? fun i => ?_
      have hlength := length_columnWidths column rows
      rw [List.getElem?_zipWith, List.getElem?_mapIdx, List.getElem?_mapIdx]
      by_cases hi : i < rows.length
      · have hi' : i < (columnWidths column rows).length := hlength ▸ hi
        rw [List.getElem?_eq_getElem hi, List.getElem?_eq_getElem hi']
        show some _ = some _
        rw [List.map_cons, List.getD_eq_getElem _ _ hi']
      · rw [List.getElem?_eq_none (Nat.le_of_not_lt hi)]
        simp
  exact hcolumns _

/-! ## Rows -/

/-- The cells of a row, all but the last one padded to the widths of their columns. -/
def Row.padded (width : Nat → Nat) (row : Row) : Row :=
  row.mapIdx fun column cell => if column + 1 < row.length then pad (width column) cell else cell

/-- The offset at which the cell of a column starts. -/
def Row.start (width : Nat → Nat) (row : Row) (column : Nat) : Nat :=
  ((row.padded width).take column).flatten.length

theorem Row.padded_cons_cons (width : Nat → Nat) (cell next : List Char) (cells : Row) :
    Row.padded width (cell :: next :: cells) =
      pad (width 0) cell :: Row.padded (fun column => width (column + 1)) (next :: cells) := by
  unfold padded
  rw [List.mapIdx_cons]
  simp

theorem rowText_eq {widths : List Nat} {width : Nat → Nat} {row : Row}
    (h : ∀ column, column + 1 < row.length → widths[column]? = some (width column)) :
    rowText widths row = (row.padded width).flatten := by
  induction row generalizing widths width with
  | nil => cases widths <;> rfl
  | cons cell rest ih =>
    cases rest with
    | nil => cases widths <;> simp [rowText, Row.padded]
    | cons next cells =>
      have hfirst := h 0 (by simp)
      cases widths with
      | nil => cases hfirst
      | cons w widths =>
        cases hfirst
        rw [Row.padded_cons_cons, List.flatten_cons]
        show pad _ cell ++ rowText widths (next :: cells) = _
        rw [ih fun column hcolumn => h (column + 1) (Nat.succ_lt_succ hcolumn)]

end

/-- The width of a column in a row. -/
def widthAt (rows : List Row) (i column : Nat) : Nat := (columnWidths column rows).getD i 0

theorem isWidth_widthAt {rows : List Row} {i column : Nat} (h : HasCell rows column i) :
    IsWidth (blockLengths rows column i) (widthAt rows i column) :=
  isWidth_columnWidths column rows i h

/-- The lines of a table are its padded rows, trimmed. -/
theorem align_eq (rows : List Row) :
    align rows =
      rows.mapIdx fun i row => Text.trimEnd (row.padded (widthAt rows i)).flatten := by
  unfold align
  rw [rowWidths_eq]
  refine List.ext_getElem? fun i => ?_
  rw [List.getElem?_zipWith, List.getElem?_mapIdx, List.getElem?_mapIdx]
  cases hrow : rows[i]? with
  | none => rfl
  | some row =>
    have hcount : row.length - 1 ≤ columnCount rows :=
      le_foldr_max (List.mem_map_of_mem (f := fun row : Row => row.length - 1)
        (List.mem_of_getElem? hrow))
    refine congrArg (fun t => some (Text.trimEnd t)) (rowText_eq fun column hcolumn => ?_)
    rw [List.getElem?_map, List.getElem?_range (by omega)]
    rfl

/-! ## Offsets -/

namespace Row

variable {width : Nat → Nat} {row : Row} {column : Nat}

theorem getElem?_padded (width : Nat → Nat) {cell : List Char} (hcell : row[column]? = some cell)
    (hlt : column + 1 < row.length) :
    (row.padded width)[column]? = some (pad (width column) cell) := by
  unfold padded
  rw [List.getElem?_mapIdx, hcell, Option.map_some, if_pos hlt]

/-- Behind a cell that is not wider than its column, the next one starts where the column ends. -/
theorem start_succ (hlt : column + 1 < row.length)
    (h : (row.getD column []).length ≤ width column) :
    row.start width (column + 1) = row.start width column + width column := by
  have hcell : row[column]? = some (row.getD column []) := by
    rw [List.getD_eq_getElem _ _ (by omega), List.getElem?_eq_getElem]
  have hpad : (pad (width column) (row.getD column [])).length = width column := by
    unfold pad
    rw [List.length_append, List.length_replicate]
    omega
  unfold start
  rw [List.take_add_one, getElem?_padded width hcell hlt, Option.toList_some, List.flatten_append,
    List.length_append, List.flatten_singleton, hpad]

end Row

theorem cellAt_eq {rows : List Row} {i : Nat} {row : Row} (hrow : rows[i]? = some row)
    (column : Nat) : cellAt rows column i = row.getD column [] := by
  unfold cellAt
  rw [hrow]
  rfl

theorem start_succ_widthAt {rows : List Row} {column i : Nat} {row : Row}
    (h : HasCell rows column i) (hrow : rows[i]? = some row) :
    row.start (widthAt rows i) (column + 1) =
      row.start (widthAt rows i) column + widthAt rows i column := by
  have hfits := (isWidth_widthAt h).le (length_cellAt_mem h)
  rw [cellAt_eq hrow] at hfits
  obtain ⟨_, heq, hlt⟩ := h
  cases hrow.symm.trans heq
  exact Row.start_succ hlt hfits

/-- The cells behind a block start at one offset.  By induction on the column: the rows share their
blocks in all columns before. -/
theorem start_eq_of_sharesBlock {rows : List Row} {column i j : Nat} {row row' : Row}
    (h : SharesBlock rows column i j) (hrow : rows[i]? = some row) (hrow' : rows[j]? = some row') :
    row.start (widthAt rows i) (column + 1) = row'.start (widthAt rows j) (column + 1) := by
  have hwidth := isWidth_widthAt h.left
  rw [h.blockLengths_eq] at hwidth
  rw [start_succ_widthAt h.left hrow, start_succ_widthAt h.right hrow',
    hwidth.unique (isWidth_widthAt h.right)]
  cases column with
  | zero => rfl
  | succ column =>
    rw [start_eq_of_sharesBlock (h.earlier (Nat.le_succ column)) hrow hrow']

/-- Tables are laid out with elastic columns.  Every line is the cells of its row in their order,
all but the last one padded to the widths of their columns, with the blanks at the end removed.  The
width of a column in a row is that of the block that the row has there.  Rows that share a block
start the next cell at one offset, and a cell that is not empty has a space behind it unless it is
the last one. -/
theorem align_elastic (rows : List Row) : ∃ width : Nat → Nat → Nat,
    (align rows = rows.mapIdx fun i row => Text.trimEnd (row.padded (width i)).flatten) ∧
    (∀ i column, HasCell rows column i →
      IsWidth (blockLengths rows column i) (width i column)) ∧
    (∀ column i j row row', SharesBlock rows column i j → rows[i]? = some row →
      rows[j]? = some row' →
      row.start (width i) (column + 1) = row'.start (width j) (column + 1)) ∧
    ∀ (i : Nat) (row : Row) (column : Nat) (cell : List Char), rows[i]? = some row →
      row[column]? = some cell → column + 1 < row.length → cell ≠ [] →
      ∃ n, (row.padded (width i))[column]? = some (cell ++ List.replicate (n + 1) ' ') := by
  refine ⟨widthAt rows, align_eq rows, fun i column => isWidth_widthAt,
    fun column i j row row' => start_eq_of_sharesBlock, ?_⟩
  intro i row column cell hrow hcell hlt hne
  have hhas : HasCell rows column i := ⟨row, hrow, hlt⟩
  have hmem := length_cellAt_mem hhas
  rw [cellAt_eq hrow, List.getD_eq_getElem?_getD, hcell, Option.getD_some] at hmem
  have hwide := (isWidth_widthAt hhas).lt_of_pos hmem (List.length_pos_iff.mpr hne)
  refine ⟨widthAt rows i column - cell.length - 1, ?_⟩
  rw [Row.getElem?_padded _ hcell hlt]
  have hsucc : widthAt rows i column - cell.length - 1 + 1 = widthAt rows i column - cell.length :=
    by omega
  rw [hsucc]
  rfl

/-- A column that is empty in its whole block takes no space, and a row without the column ends the
block. -/
example :
    let rows := [["ab", "", "x", "end"], ["a", "", "xyz", "end"], ["a"], ["abcd", "", "x"]]
    align (rows.map (List.map String.toList)) =
      ["ab x   end", "a  xyz end", "a", "abcd x"].map String.toList := by decide +kernel

end SchemaToGo.Go
