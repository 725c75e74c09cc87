import SchemaToGo.Proofs.Position
set_option autoImplicit false

/-!
# Offsets and positions

Every byte of a source has its own line and column, and they lead back to it: `locate_inverse`.  The
columns of a line are as many as its bytes, the line feed included, and later bytes have later
positions.  Both directions come down to the place where a line starts: so many line feeds stand
before it, the last of them at its end.
-/

namespace SchemaToGo.Position

/-- Earlier in a source: on a line before, or before it on the same line. -/
def Before (p q : Position) : Prop :=
  p.line < q.line ∨ p.line = q.line ∧ p.character < q.character

/-! ## Lines -/

/-- The lines of a source, each with the line feed that ends it.  What follows the last line feed is
a line, too, even if nothing does. -/
def lines : List UInt8 → List (List UInt8)
  | [] => [[]]
  | b :: rest => if b = lineFeed then [b] :: lines rest else (lines rest).modifyHead (b :: ·)

/-- No bytes, or a last one that ends a line: here a line may start. -/
def EndsLine (bytes : List UInt8) : Prop := bytes = [] ∨ bytes.getLast? = some lineFeed

theorem EndsLine.cons {b : UInt8} {bytes : List UInt8} (h : EndsLine bytes)
    (hb : bytes = [] → b = lineFeed) : EndsLine (b :: bytes) := by
  rcases h with rfl | hlast
  · exact .inr (by rw [hb rfl]; rfl)
  · refine .inr ?_
    rw [List.getLast?_cons, hlast]
    rfl

/-- Without line feeds a line ends only before the first byte. -/
theorem EndsLine.eq_nil {bytes : List UInt8} (h : EndsLine bytes)
    (hcount : bytes.count lineFeed = 0) : bytes = [] :=
  h.resolve_right fun hlast =>
    List.count_eq_zero.mp hcount (List.mem_of_getLast? hlast)

/-- Where a line ends, so many lines have ended as there are line feeds. -/
theorem endOf_of_endsLine {bytes : List UInt8} (h : EndsLine bytes) :
    endOf bytes = (1 + bytes.count lineFeed, 0) := by
  unfold endOf
  rw [(lastLine_eq_nil_iff bytes).mpr h]
  rfl

/-- A line stands after as many line feeds as there are lines before it, and has none but at its
end. -/
theorem exists_of_getElem?_lines {source line : List UInt8} {i : Nat}
    (h : (lines source)[i]? = some line) :
    ∃ front back, source = front ++ (line ++ back) ∧ front.count lineFeed = i ∧ EndsLine front ∧
      lineFeed ∉ line.dropLast := by
  induction source generalizing i line with
  | nil =>
    cases i with
    | zero =>
      cases h
      exact ⟨[], [], rfl, rfl, .inl rfl, List.not_mem_nil⟩
    | succ i => cases h
  | cons b rest ih =>
    unfold lines at h
    by_cases hb : b = lineFeed
    · rw [if_pos hb] at h
      cases i with
      | zero =>
        cases h
        exact ⟨[], rest, rfl, rfl, .inl rfl, List.not_mem_nil⟩
      | succ i =>
        obtain ⟨front, back, rfl, hcount, hfront, hline⟩ := ih h
        refine ⟨b :: front, back, rfl, ?_, hfront.cons fun _ => hb, hline⟩
        rw [hb, List.count_cons_self, hcount]
    · rw [if_neg hb] at h
      cases i with
      | zero =>
        rw [List.getElem?_modifyHead_zero] at h
        obtain ⟨tail, htail, rfl⟩ := Option.map_eq_some_iff.mp h
        obtain ⟨front, back, rfl, hcount, hfront, hline⟩ := ih htail
        obtain rfl := hfront.eq_nil hcount
        refine ⟨[], back, rfl, rfl, .inl rfl, ?_⟩
        cases tail with
        | nil => exact List.not_mem_nil
        | cons x tail =>
          rw [List.dropLast_cons_cons, List.mem_cons, not_or]
          exact ⟨Ne.symm hb, hline⟩
      | succ i =>
        rw [List.getElem?_modifyHead_succ] at h
        obtain ⟨front, back, rfl, hcount, hfront, hline⟩ := ih h
        have hne : front ≠ [] := by
          rintro rfl
          exact absurd hcount (Nat.succ_ne_zero i).symm
        refine ⟨b :: front, back, rfl, ?_, hfront.cons fun hnil => absurd hnil hne, hline⟩
        rw [List.count_cons_of_ne hb, hcount]

/-! ## Order -/

/-- Bytes without a line feed go on with the line. -/
theorem lastLine_append {more : List UInt8} (h : lineFeed ∉ more) (bytes : List UInt8) :
    lastLine (bytes ++ more) = lastLine bytes ++ more := by
  induction more using List.reverseRecOn with
  | nil => rw [List.append_nil, List.append_nil]
  | append_singleton more b ih =>
    rw [List.mem_append, not_or, List.mem_singleton] at h
    rw [← List.append_assoc, lastLine_concat (Ne.symm h.2), ih h.1, List.append_assoc]

theorem endOf_append {more : List UInt8} (h : lineFeed ∉ more) (bytes : List UInt8) :
    endOf (bytes ++ more) = ((endOf bytes).1, (endOf bytes).2 + more.length) := by
  unfold endOf
  rw [lastLine_append h, List.count_append, List.count_eq_zero.mpr h, List.length_append,
    Nat.add_zero]

/-- More bytes end on a later line, or further on in the same line. -/
theorem endOf_lt_append {more : List UInt8} (h : more ≠ []) (bytes : List UInt8) :
    (endOf bytes).1 < (endOf (bytes ++ more)).1 ∨
      (endOf bytes).1 = (endOf (bytes ++ more)).1 ∧
        (endOf bytes).2 < (endOf (bytes ++ more)).2 := by
  by_cases hfeed : lineFeed ∈ more
  · have hcount := List.count_pos_iff.mpr hfeed
    refine .inl ?_
    show 1 + bytes.count lineFeed < 1 + (bytes ++ more).count lineFeed
    rw [List.count_append]
    omega
  · have hlength := List.length_pos_of_ne_nil h
    rw [endOf_append hfeed]
    exact .inr ⟨rfl, Nat.lt_add_of_pos_right hlength⟩

/-! ## There and back -/

/-- The position of a byte. -/
theorem locate_of_append (front back : List UInt8) {b : UInt8} :
    locate (front ++ b :: back) front.length = .ok ⟨(endOf front).1, (endOf front).2 + 1⟩ := by
  have hlt : front.length < (front ++ b :: back).length := by
    rw [List.length_append, List.length_cons]
    omega
  rw [locate_eq, if_pos hlt, List.take_left]

/-- The position of a byte leads back to it. -/
theorem offsetAt_of_append (front back : List UInt8) :
    offsetAt (front ++ back) (endOf front).1 ((endOf front).2 + 1) = front.length := by
  unfold offsetAt
  rw [Nat.add_sub_cancel]
  exact lineStart_endOf front back

/-- The byte in a column of a line. -/
theorem locate_offsetAt_of_line {source bytes : List UInt8} {i column : Nat}
    (hline : (lines source)[i]? = some bytes) (hcolumn : column < bytes.length) :
    locate source (offsetAt source (i + 1) (column + 1)) = .ok ⟨i + 1, column + 1⟩ := by
  obtain ⟨front, back, rfl, hcount, hfront, hfeed⟩ := exists_of_getElem?_lines hline
  have hsplit : bytes = bytes.take column ++ bytes[column] :: bytes.drop (column + 1) := by
    rw [← List.drop_eq_getElem_cons hcolumn, List.take_append_drop]
  have htake : lineFeed ∉ bytes.take column := fun hmem =>
    hfeed (List.dropLast_eq_take ▸ List.mem_of_mem_take (i := column) (by
      rw [List.take_take, Nat.min_eq_left (Nat.le_sub_one_of_lt hcolumn)]
      exact hmem))
  -- in front of the byte stand the lines before it and its columns to the left
  have hend : endOf (front ++ bytes.take column) = (i + 1, column) := by
    rw [endOf_append htake, endOf_of_endsLine hfront, hcount, Nat.add_comm 1 i,
      List.length_take_of_le (Nat.le_of_lt hcolumn), Nat.zero_add]
  have hsource : front ++ (bytes ++ back) =
      front ++ bytes.take column ++ bytes[column] :: (bytes.drop (column + 1) ++ back) := by
    conv_lhs => rw [hsplit]
    simp only [List.append_assoc, List.cons_append]
  have hback := offsetAt_of_append (front ++ bytes.take column)
    (bytes[column] :: (bytes.drop (column + 1) ++ back))
  have hlocate := @locate_of_append (front ++ bytes.take column)
    (bytes.drop (column + 1) ++ back) bytes[column]
  rw [← hsource, hend] at hback hlocate
  rw [hback, hlocate]

/-- Where a byte is located, and that it is one of the source. -/
theorem locate_eq_ok {source : List UInt8} {offset : Nat} {p : Position}
    (h : locate source offset = .ok p) :
    offset < source.length ∧
      p = ⟨(endOf (source.take offset)).1, (endOf (source.take offset)).2 + 1⟩ := by
  rw [locate_eq] at h
  split at h
  · next hlt => exact ⟨hlt, (Except.ok.inj h).symm⟩
  · cases h

/-- Later bytes have later positions. -/
theorem before_of_lt {source : List UInt8} {offset offset' : Nat} {p p' : Position}
    (hlt : offset < offset') (hp : locate source offset = .ok p)
    (hp' : locate source offset' = .ok p') : p.Before p' := by
  obtain ⟨-, rfl⟩ := locate_eq_ok hp
  obtain ⟨hin, rfl⟩ := locate_eq_ok hp'
  have hmore : source.take offset' =
      source.take offset ++ (source.drop offset).take (offset' - offset) := by
    rw [← List.take_add, Nat.add_sub_cancel' (Nat.le_of_lt hlt)]
  have hne : (source.drop offset).take (offset' - offset) ≠ [] := by
    intro hnil
    have hlength := congrArg List.length hnil
    rw [List.length_take, List.length_drop, List.length_nil] at hlength
    omega
  have hbefore := endOf_lt_append hne (source.take offset)
  rw [← hmore] at hbefore
  exact hbefore.imp_right fun h => ⟨h.1, Nat.succ_lt_succ h.2⟩

/-- Offsets and positions are inverse to each other: every byte has a position that leads back to
it, nothing else has one, every column of every line leads to a byte with that position, and later
bytes have later positions. -/
theorem locate_inverse (source : List UInt8) :
    (∀ offset, offset < source.length →
      ∃ p, locate source offset = .ok p ∧ offsetAt source p.line p.character = offset) ∧
    (∀ offset, source.length ≤ offset → locate source offset = .error ⟨offset, source.length⟩) ∧
    (∀ i line, (lines source)[i]? = some line → ∀ column, 1 ≤ column → column ≤ line.length →
      locate source (offsetAt source (i + 1) column) = .ok ⟨i + 1, column⟩) ∧
    ∀ offset offset' p p', offset < offset' → locate source offset = .ok p →
      locate source offset' = .ok p' → p.Before p' := by
  refine ⟨fun offset h => ?_, fun offset h => ?_, fun i line hline column hpos hle => ?_,
    fun offset offset' p p' hlt hp hp' => ?_⟩
  · refine ⟨_, (locate_eq source offset).trans (if_pos h), ?_⟩
    have hback := offsetAt_of_append (source.take offset) (source.drop offset)
    rwa [List.take_append_drop, List.length_take_of_le (Nat.le_of_lt h)] at hback
  · exact (locate_eq source offset).trans (if_neg (Nat.not_lt.mpr h))
  · obtain ⟨column, rfl⟩ := Nat.exists_eq_add_one_of_ne_zero (Nat.ne_of_gt hpos)
    exact locate_offsetAt_of_line hline hle
  · exact before_of_lt hlt hp hp'

/-- The last byte of two lines, the second of which has no line feed. -/
theorem locate_inverse_twoLines :
    locate [0x61, 0x62, lineFeed, 0x63, 0x64] 4 = .ok ⟨2, 2⟩ ∧
      offsetAt [0x61, 0x62, lineFeed, 0x63, 0x64] 2 2 = 4 ∧
      locate [0x61, 0x62, lineFeed, 0x63, 0x64] 5 = .error ⟨5, 5⟩ ∧
      (Position.mk 1 3).Before ⟨2, 2⟩ := by
  obtain ⟨hthere, hout, hback, hbefore⟩ := locate_inverse [0x61, 0x62, lineFeed, 0x63, 0x64]
  have hfeed : locate [0x61, 0x62, lineFeed, 0x63, 0x64] 2 = .ok ⟨1, 3⟩ := by decide
  have hlast := hback 1 [0x63, 0x64] (by decide) 2 (by decide) (by decide)
  have hoffset : offsetAt [0x61, 0x62, lineFeed, 0x63, 0x64] 2 2 = 4 := by
    have hd : locate [0x61, 0x62, lineFeed, 0x63, 0x64] 4 = .ok ⟨2, 2⟩ := by decide
    obtain ⟨p, hp, hp'⟩ := hthere 4 (by decide)
    obtain rfl := Except.ok.inj (hp.symm.trans hd)
    exact hp'
  rw [hoffset] at hlast
  exact ⟨hlast, hoffset, hout 5 (by decide), hbefore 2 4 ⟨1, 3⟩ ⟨2, 2⟩ (by decide) hfeed hlast⟩

end SchemaToGo.Position
