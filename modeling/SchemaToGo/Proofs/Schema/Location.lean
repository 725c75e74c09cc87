import SchemaToGo.Proofs.Position
import SchemaToGo.Proofs.Schema.Takes
import SchemaToGo.Proofs.Text.Split
set_option autoImplicit false

/-!
# Where failed parses are reported

A reading that fails stands somewhere in the text, in some line and column.  The error names the
last byte read on that line, or the line's start if nothing was read on it, and its wording is that
of the reading without the line and column.

Normative source: SPEC_FULL.md section 7, on the location of reports.
-/

namespace SchemaToGo

/-! ## What is wrong -/

/-- No mark of a place starts within the text of one. -/
theorem mark_not_inside (line column : Nat) :
    ¬ " at line ".toList <:+:
      (" at line ".toList ++ (line.repr ++ " column " ++ column.repr).toList).tail := by
  have hdigits : ∀ n : Nat, 'a' ∉ n.repr.toList := by
    intro n hmem
    rw [Nat.toList_repr] at hmem
    exact absurd (Nat.isDigit_of_mem_toDigits (by decide) (by decide) hmem) (by decide)
  have hmark : " at line ".toList = ' ' :: 'a' :: "t line ".toList := by decide
  rw [hmark, List.cons_append, List.tail_cons, List.cons_append]
  rintro ⟨front, back, h⟩
  -- A mark has an `a` after its first character, but the only one here is the first character.
  have hmem : 'a' ∈ "t line ".toList ++ (line.repr ++ " column " ++ column.repr).toList := by
    cases front with
    | nil => exact absurd (List.cons.inj h).1 (by decide)
    | cons c front =>
      rw [← (List.cons.inj h).2]
      exact List.mem_append_left _ (List.mem_append_right _ (.tail _ (.head _)))
  simp only [String.toList_append, List.mem_append] at hmem
  rcases hmem with hmem | (hmem | hmem) | hmem
  · exact absurd hmem (by decide)
  · exact hdigits line hmem
  · exact absurd hmem (by decide)
  · exact hdigits column hmem

/-- The place that a report ends with can be taken off, whatever stands before it. -/
theorem withoutPlace_append (message : String) (line column : Nat) :
    withoutPlace (message ++ s!" at line {line} column {column}") = message := by
  have htext : (message ++ s!" at line {line} column {column}").toList =
      message.toList ++
        (" at line ".toList ++ (line.repr ++ " column " ++ column.repr).toList) := by
    show (message ++ (" at line " ++ line.repr ++ " column " ++ column.repr)).toList = _
    simp only [String.toList_append, List.append_assoc]
  unfold withoutPlace
  rw [htext, Text.beforeLast?_mark (mark_not_inside line column)]
  exact String.ofList_toList

/-! ## Where -/

namespace Position

/-- The place of the last byte read on a line, or of the line's start. -/
theorem locate_offsetAt {source : List UInt8} {index : Nat} (h : index ≤ source.length) :
    let column := (lastLine (source.take index)).length
    let offset := if 0 < column then index - 1 else index
    locate source offset =
      if offset < source.length then .ok ⟨1 + (source.take index).count lineFeed, max column 1⟩
      else .error ⟨offset, source.length⟩ := by
  intro column offset
  rw [locate_eq]
  by_cases hcolumn : 0 < column
  · have hoffset : offset = index - 1 := if_pos hcolumn
    obtain ⟨hline, hcharacter⟩ := Prod.mk.inj (endOf_take_pred h hcolumn)
    rw [hoffset, ← hline, ← hcharacter, Nat.max_eq_left hcolumn]
  · have hoffset : offset = index := if_neg hcolumn
    have hzero : column = 0 := Nat.eq_zero_of_not_pos hcolumn
    rw [hoffset, hzero]
    exact congrArg (fun n => if index < source.length then
      Except.ok (Position.mk (1 + (source.take index).count lineFeed) (n + 1)) else _) hzero

/-- That place is beyond the source exactly if it is the source's empty last line. -/
theorem not_offset_lt_iff {source : List UInt8} {index : Nat} (h : index ≤ source.length) :
    let column := (lastLine (source.take index)).length
    ¬ (if 0 < column then index - 1 else index) < source.length ↔
      index = source.length ∧ column = 0 := by
  intro column
  by_cases hcolumn : 0 < column
  · have hindex : 0 < index := by
      refine Nat.pos_of_ne_zero fun hzero => ?_
      subst hzero
      exact absurd hcolumn (Nat.lt_irrefl 0)
    rw [if_pos hcolumn]
    omega
  · rw [if_neg hcolumn]
    omega

end Position

/-- The error of a reading that failed in some line and column of a text. -/
structure ParseError.Locates (e : ParseError) (bytes : List UInt8) (failure : Json.Failure)
    (line column : Nat) : Prop where
  offset : e.location.offset = if 0 < column then failure.index - 1 else failure.index
  offset_le : e.location.offset ≤ bytes.length
  position : e.location.offset < bytes.length → e.location.position = .ok ⟨line, max column 1⟩
  outOfRange (r : OutOfRange) : e.location.position = .error r ↔
    r = ⟨e.location.offset, bytes.length⟩ ∧ failure.index = bytes.length ∧ column = 0
  emptyLine : failure.index = bytes.length ∧ column = 0 ↔
    failure.index = bytes.length ∧ (bytes = [] ∨ bytes.getLast? = some lineFeed)
  report : e.detail ++ s!" at line {line} column {column}" = failure.report bytes

theorem Json.Failure.report_eq {failure : Json.Failure} {bytes : List UInt8} {line column : Nat}
    (h : Position.lineColumn bytes failure.index = (line, column)) :
    failure.report bytes = failure.cause.message ++ s!" at line {line} column {column}" := by
  unfold Json.Failure.report
  rw [h]

namespace ParseError

variable (document : String) (bytes : List UInt8) (failure : Json.Failure)

theorem location_ofFailure : (ofFailure document bytes failure).location =
    Location.ofIndex document bytes failure.index := by
  unfold ofFailure
  cases failure.cause <;> rfl

theorem detail_ofFailure :
    (ofFailure document bytes failure).detail = withoutPlace (failure.report bytes) := by
  unfold ofFailure
  cases failure.cause <;> rfl

variable {bytes failure}

/-- The error of a failed reading tells where it failed. -/
theorem ofFailure_locates (h : failure.index ≤ bytes.length) :
    (ofFailure document bytes failure).Locates bytes failure
      (1 + (bytes.take failure.index).count lineFeed)
      (Position.lastLine (bytes.take failure.index)).length := by
  have hoffset : (ofFailure document bytes failure).location.offset =
      if 0 < (Position.lastLine (bytes.take failure.index)).length then failure.index - 1
      else failure.index := by
    rw [location_ofFailure]
    exact Position.offsetAt_lineColumn h
  have hposition : (ofFailure document bytes failure).location.position =
      Position.locate bytes (ofFailure document bytes failure).location.offset := by
    rw [location_ofFailure]
    rfl
  have hplace := Position.locate_offsetAt h
  have hend := Position.not_offset_lt_iff h
  dsimp only at hplace hend
  rw [← hoffset] at hplace hend
  rw [← hposition] at hplace
  refine ⟨hoffset, ?_, fun hlt => ?_, fun r => ?_, ?_, ?_⟩
  · rw [hoffset]
    split
    · exact (Nat.sub_le _ _).trans h
    · exact h
  · rw [hplace, if_pos hlt]
  · rw [hplace, ← hend]
    split
    · next hlt => exact ⟨nofun, fun hr => absurd hlt hr.2⟩
    · next hlt =>
      exact ⟨fun hr => ⟨(Except.error.inj hr).symm, hlt⟩, fun hr => congrArg _ hr.1.symm⟩
  · refine and_congr_right fun hindex => ?_
    rw [hindex, List.take_length, List.length_eq_zero_iff]
    exact Position.lastLine_eq_nil_iff bytes
  · rw [detail_ofFailure, Json.Failure.report_eq (Position.lineColumn_eq bytes failure.index)]
    exact congrArg (· ++ _) (withoutPlace_append _ _ _)

end ParseError

/-- A failed parse is reported where the reading of the text failed. -/
theorem parse_error_locates {document text : String} {e : ParseError}
    (h : Schema.parse document text = .error e) :
    ∃ failure, Schema.readText (Utf8.encode text) = .error failure ∧
      failure.index ≤ (Utf8.encode text).length ∧
      e.Locates (Utf8.encode text) failure
        (1 + ((Utf8.encode text).take failure.index).count lineFeed)
        (Position.lastLine ((Utf8.encode text).take failure.index)).length := by
  unfold Schema.parse at h
  dsimp only at h
  cases hrun : Schema.readText (Utf8.encode text) with
  | ok s =>
    rw [hrun] at h
    exact absurd h nofun
  | error failure =>
    rw [hrun] at h
    have hindex := Schema.readText_error_index_le hrun
    exact ⟨failure, rfl, hindex, Except.error.inj h ▸ ParseError.ofFailure_locates document hindex⟩

/-- A text that ends in a line feed before anything is read is reported at its empty last line. -/
theorem parse_error_locates_feed : ∃ e, Schema.parse "schema.json" "\n" = .error e ∧
    ∃ failure, Schema.readText (Utf8.encode "\n") = .error failure ∧
      failure.index ≤ (Utf8.encode "\n").length ∧
      e.Locates (Utf8.encode "\n") failure
        (1 + ((Utf8.encode "\n").take failure.index).count lineFeed)
        (Position.lastLine ((Utf8.encode "\n").take failure.index)).length :=
  ⟨_, rfl, parse_error_locates rfl⟩

end SchemaToGo
