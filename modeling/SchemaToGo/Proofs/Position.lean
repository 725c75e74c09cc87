import SchemaToGo.Position
import Mathlib.Data.List.DropRight
set_option autoImplicit false

/-!
# Lines and columns

The line of a place is one more than the line feeds before it, and its column is the number of bytes
since the last one.  Everything that counts lines is brought back to these two numbers of the bytes
before a place: going on by a byte, finding a line's start, and taking a line and a column back to
the place.

Normative source: SPEC_FULL.md section 4.1.
-/

namespace SchemaToGo.Position

/-! ## The end of some bytes -/

/-- The bytes after the last line feed. -/
def lastLine (bytes : List UInt8) : List UInt8 := bytes.rtakeWhile (· ≠ lineFeed)

theorem lastLine_feed (bytes : List UInt8) : lastLine (bytes ++ [lineFeed]) = [] :=
  List.rtakeWhile_concat_neg _ _ _ (by decide)

theorem lastLine_concat {b : UInt8} (hb : b ≠ lineFeed) (bytes : List UInt8) :
    lastLine (bytes ++ [b]) = lastLine bytes ++ [b] :=
  List.rtakeWhile_concat_pos _ _ _ (decide_eq_true hb)

/-- The line and the column that some bytes end in. -/
def endOf (bytes : List UInt8) : Nat × Nat := (1 + bytes.count lineFeed, (lastLine bytes).length)

theorem endOf_feed (bytes : List UInt8) :
    endOf (bytes ++ [lineFeed]) = ((endOf bytes).1 + 1, 0) := by
  unfold endOf
  rw [lastLine_feed, List.count_append, List.count_singleton_self]
  rfl

theorem endOf_concat {b : UInt8} (hb : b ≠ lineFeed) (bytes : List UInt8) :
    endOf (bytes ++ [b]) = ((endOf bytes).1, (endOf bytes).2 + 1) := by
  unfold endOf
  rw [lastLine_concat hb, List.count_append, List.count_singleton,
    if_neg (by simpa using hb), List.length_append, Nat.add_zero]
  rfl

/-- The last line is where the bytes end, after nothing or after a line feed. -/
theorem exists_lastLine (bytes : List UInt8) :
    ∃ before, bytes = before ++ lastLine bytes ∧ lineFeed ∉ lastLine bytes ∧
      (before = [] ∨ ∃ front, before = front ++ [lineFeed]) := by
  induction bytes using List.reverseRecOn with
  | nil => exact ⟨[], rfl, List.not_mem_nil, .inl rfl⟩
  | append_singleton bytes b ih =>
    by_cases hb : b = lineFeed
    · rw [hb, lastLine_feed]
      exact ⟨_, (List.append_nil _).symm, List.not_mem_nil, .inr ⟨bytes, rfl⟩⟩
    · obtain ⟨before, hbytes, hfeed, hbefore⟩ := ih
      rw [lastLine_concat hb]
      refine ⟨before, ?_, ?_, hbefore⟩
      · rw [← List.append_assoc, ← hbytes]
      · simp only [List.mem_append, List.mem_singleton, not_or]
        exact ⟨hfeed, Ne.symm hb⟩

/-- Bytes end in an empty line if there are none or the last of them is a line feed. -/
theorem lastLine_eq_nil_iff (bytes : List UInt8) :
    lastLine bytes = [] ↔ bytes = [] ∨ bytes.getLast? = some lineFeed := by
  obtain ⟨before, hbytes, hfeed, hbefore⟩ := exists_lastLine bytes
  constructor
  · intro hline
    rw [hline, List.append_nil] at hbytes
    rcases hbefore with rfl | ⟨front, rfl⟩
    · exact .inl hbytes
    · exact .inr (by rw [hbytes, List.getLast?_concat])
  · rintro (rfl | hlast)
    · rfl
    · refine Decidable.byContradiction fun hne => hfeed ?_
      rw [hbytes, List.getLast?_append_of_ne_nil _ hne] at hlast
      exact List.mem_of_getLast? hlast

/-! ## Places of a source -/

theorem lineColumnFrom_eq (before source : List UInt8) (n : Nat) :
    lineColumnFrom (endOf before).1 (endOf before).2 source n =
      endOf (before ++ source.take n) := by
  induction source generalizing before n with
  | nil =>
    cases n <;> simp only [lineColumnFrom, List.take_nil, List.append_nil]
  | cons b rest ih =>
    cases n with
    | zero => simp only [lineColumnFrom, List.take_zero, List.append_nil]
    | succ n =>
      rw [List.take_succ_cons, List.append_cons, ← ih, lineColumnFrom]
      by_cases hb : b = lineFeed
      · rw [if_pos hb, hb, endOf_feed]
      · rw [if_neg hb, endOf_concat hb]

/-- The line and the column of a place are those that the bytes before it end in. -/
theorem lineColumn_eq (source : List UInt8) (index : Nat) :
    lineColumn source index = endOf (source.take index) :=
  lineColumnFrom_eq [] source index

theorem locateFrom_eq (before source : List UInt8) (n : Nat) :
    locateFrom (endOf before).1 (endOf before).2 source n =
      if n < source.length then
        some ⟨(endOf (before ++ source.take n)).1, (endOf (before ++ source.take n)).2 + 1⟩
      else none := by
  induction source generalizing before n with
  | nil => rw [List.length_nil, if_neg (Nat.not_lt_zero n), locateFrom]
  | cons b rest ih =>
    cases n with
    | zero =>
      rw [List.length_cons, if_pos (Nat.zero_lt_succ rest.length), List.take_zero,
        List.append_nil, locateFrom]
    | succ n =>
      rw [List.take_succ_cons, List.append_cons, List.length_cons]
      simp only [Nat.succ_lt_succ_iff]
      rw [← ih, locateFrom]
      by_cases hb : b = lineFeed
      · rw [if_pos hb, hb, endOf_feed]
      · rw [if_neg hb, endOf_concat hb]

/-- A byte stands one character after the bytes before it. -/
theorem locate_eq (source : List UInt8) (offset : Nat) :
    locate source offset =
      if offset < source.length then
        .ok ⟨(endOf (source.take offset)).1, (endOf (source.take offset)).2 + 1⟩
      else .error ⟨offset, source.length⟩ := by
  have h : locateFrom 1 0 source offset = _ := locateFrom_eq [] source offset
  unfold locate
  rw [h, List.nil_append]
  by_cases hoffset : offset < source.length
  · rw [if_pos hoffset, if_pos hoffset]
  · rw [if_neg hoffset, if_neg hoffset]

/-! ## Back to the place -/

/-- The last of `n` line feeds is found where it stands. -/
theorem afterLineFeeds_append (front rest : List UInt8) :
    afterLineFeeds (front ++ lineFeed :: rest) (front.count lineFeed + 1) = front.length + 1 := by
  induction front with
  | nil =>
    cases rest <;> rfl
  | cons b front ih =>
    rw [List.cons_append, List.length_cons]
    by_cases hb : b = lineFeed
    · rw [hb, List.count_cons_self, afterLineFeeds, if_pos rfl, ih, Nat.add_comm]
    · rw [List.count_cons_of_ne hb, afterLineFeeds, if_neg hb, ih, Nat.add_comm]

/-- The line of a place starts as many bytes before it as its column says. -/
theorem lineStart_endOf (before rest : List UInt8) :
    lineStart (before ++ rest) (endOf before).1 + (endOf before).2 = before.length := by
  obtain ⟨front, hbefore, hfeed, hfront⟩ := exists_lastLine before
  have hcount : before.count lineFeed = front.count lineFeed := by
    rw [hbefore, List.count_append, List.count_eq_zero.mpr hfeed, Nat.add_zero]
  have hlength : before.length = front.length + (lastLine before).length := by
    rw [← List.length_append, ← hbefore]
  have hstart : lineStart (before ++ rest) (endOf before).1 = front.length := by
    unfold lineStart endOf
    rw [Nat.add_sub_cancel_left, hcount]
    rcases hfront with rfl | ⟨front, rfl⟩
    · cases before ++ rest <;> rfl
    · rw [hbefore, List.count_append, List.count_singleton_self, List.append_assoc,
        List.append_assoc, List.singleton_append, afterLineFeeds_append, List.length_append]
      rfl
  rw [hstart, hlength]
  rfl

/-- The line and the column of a place lead back to the byte before it on its line, or to the place,
if it starts the line. -/
theorem offsetAt_lineColumn {source : List UInt8} {index : Nat} (h : index ≤ source.length) :
    offsetAt source (lineColumn source index).1 (lineColumn source index).2 =
      if 0 < (lastLine (source.take index)).length then index - 1 else index := by
  have hback := lineStart_endOf (source.take index) (source.drop index)
  rw [List.take_append_drop, List.length_take_of_le h] at hback
  rw [lineColumn_eq, offsetAt]
  change lineStart source _ + (lastLine (source.take index)).length = index at hback
  change lineStart source _ + ((lastLine (source.take index)).length - 1) = _
  split
  · omega
  · omega

/-- If the byte before a place is on its line, it is in the column before. -/
theorem endOf_take_pred {source : List UInt8} {index : Nat} (h : index ≤ source.length)
    (hcolumn : 0 < (lastLine (source.take index)).length) :
    endOf (source.take index) =
      ((endOf (source.take (index - 1))).1, (endOf (source.take (index - 1))).2 + 1) := by
  obtain _ | index := index
  · exact absurd hcolumn (Nat.not_lt_zero 0)
  · rw [List.take_succ_eq_append_getElem h] at hcolumn ⊢
    refine endOf_concat (fun hb => ?_) _
    rw [hb, lastLine_feed] at hcolumn
    exact Nat.lt_irrefl 0 hcolumn

end SchemaToGo.Position
