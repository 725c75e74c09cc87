import SchemaToGo.Proofs.Json.Takes.Value
import SchemaToGo.Schema.Parse
set_option autoImplicit false

/-!
# Texts that are read as schemas

Nothing but JSON texts are parsed as schemas, and a reading that fails does so within the text: the
place that a misfit is reported at, at the end of what stands around it, is never beyond.
-/

namespace SchemaToGo.Schema

open Json Json.Reader

/-! ## Where misfits are reported -/

/-- A way to say where a misfit is reported never leads beyond the end of the text. -/
def StaysWithin (ending : Cursor → Nat) : Prop := ∀ c, ending c ≤ c.index + c.rest.length

/-- What is left further on ends where the text ends. -/
theorem drop_end {c : Cursor} {n : Nat} (h : n ≤ c.rest.length) :
    (c.drop n).index + (c.drop n).rest.length = c.index + c.rest.length := by
  show c.index + n + (c.rest.drop n).length = c.index + c.rest.length
  rw [List.length_drop]
  omega

theorem skipBlanks_end (c : Cursor) :
    c.skipBlanks.index + c.skipBlanks.rest.length = c.index + c.rest.length :=
  drop_end (List.takeWhile_prefix _).length_le

/-- Before the end of the text there is room for the index after the next byte. -/
theorem succ_index_le {c : Cursor} {b : UInt8} (h : c.rest.head? = some b) :
    c.index + 1 ≤ c.index + c.rest.length := by
  cases hrest : c.rest with
  | nil =>
    rw [hrest] at h
    exact absurd h nofun
  | cons x rest =>
    rw [List.length_cons]
    omega

theorem objectEndIndex_staysWithin : StaysWithin objectEndIndex := by
  intro c
  unfold objectEndIndex
  rw [← skipBlanks_end c]
  dsimp only
  split
  · next h => exact succ_index_le h
  · exact Nat.le_add_right _ _

theorem listEndIndex_staysWithin : StaysWithin listEndIndex := by
  intro c
  unfold listEndIndex
  rw [← skipBlanks_end c]
  dsimp only
  split
  · next h => exact succ_index_le h
  split
  · next h =>
    rw [← drop_end (c := c.skipBlanks) (Nat.le_of_add_le_add_left (succ_index_le h)),
      ← skipBlanks_end (c.skipBlanks.drop 1)]
    exact Nat.le_add_right _ _
  · exact Nat.le_add_right _ _

theorem misfit_takes {α : Type} {ending : Cursor → Nat} (h : StaysWithin ending) (m : Misfit)
    {c : Cursor} {P : List UInt8 → Prop} : Takes (misfit ending m : Reader α) c P := h c

/-! ## Values of keywords -/

variable {bound : Nat}

theorem alternative_takes {α : Type} {ending : Cursor → Nat} (h : StaysWithin ending)
    (choice : Choice) {item : Reader Value} (hitem : ∀ i bs, Takes item ⟨i, bs⟩ (Spaced ValueText))
    (ofValue? : Value → Option α) (i : Nat) (bs : List UInt8) :
    Takes (alternative ending choice item ofValue?) ⟨i, bs⟩ (Spaced ValueText) := by
  refine nullable_takes (fun i bs => (hitem i bs).bind fun v taken _ _ htaken => ?_) i bs
  cases ofValue? v with
  | none => exact misfit_takes h _
  | some a => exact .pure a ((List.append_nil taken).symm ▸ htaken)

theorem named_takes {schema : Option (Reader Schema)}
    (hschema : ∀ r ∈ schema, ∀ i bs, Takes r ⟨i, bs⟩ (Spaced ValueText)) (i : Nat)
    (bs : List UInt8) : Takes (named bound schema) ⟨i, bs⟩ (Spaced ValueText) := by
  unfold named
  refine .token (fun _ _ _ => .failNext _) fun _ blanks x rest hblanks => ?_
  dsimp only
  split
  · next hx =>
    cases schema with
    | none => exact .failNext _
    | some r =>
      have hmember : ∀ (es : List (String × Schema)) (key : String) i bs, Takes (do
          colon
          return Entries.insert key (← r) es) ⟨i, bs⟩ EndsMember := fun es key _ _ =>
        .member fun i bs => (hschema r rfl i bs).map fun s => Entries.insert key s es
      exact hx ▸ .eat ((members_takes hmember _ _ _).mono fun _ => spaced_object hblanks)
  · exact refuseKind_takes _ _ _ _ _

/-- The readers of the values of keywords take values. -/
structure PartsTake (parts : Parts Reader) : Prop where
  text (i : Nat) (bs : List UInt8) : Takes parts.text ⟨i, bs⟩ (Spaced ValueText)
  type (i : Nat) (bs : List UInt8) : Takes parts.type ⟨i, bs⟩ (Spaced ValueText)
  named (i : Nat) (bs : List UInt8) : Takes parts.named ⟨i, bs⟩ (Spaced ValueText)
  names (i : Nat) (bs : List UInt8) : Takes parts.names ⟨i, bs⟩ (Spaced ValueText)
  items (i : Nat) (bs : List UInt8) : Takes parts.items ⟨i, bs⟩ (Spaced ValueText)
  values (i : Nat) (bs : List UInt8) : Takes parts.values ⟨i, bs⟩ (Spaced ValueText)
  list (i : Nat) (bs : List UInt8) : Takes parts.list ⟨i, bs⟩ (Spaced ValueText)

theorem readParts_takes {inner : Option (Reader Schema)}
    (hinner : ∀ r ∈ inner, ∀ i bs, Takes r ⟨i, bs⟩ (Spaced ValueText)) (room : Nat)
    {ending : Cursor → Nat} (h : StaysWithin ending) :
    PartsTake (readParts bound room inner ending) where
  text := nullable_takes (text_takes bound)
  type := alternative_takes h _ (value_takes bound room) _
  named := nullable_takes (named_takes hinner)
  names := by
    refine nullable_takes (list_takes bound fun r hr => ?_)
    split at hr
    · exact absurd hr nofun
    · exact Option.some.inj hr ▸ text_takes bound
  items := alternative_takes h _ (value_takes bound room) _
  values := alternative_takes h _ (value_takes bound room) _
  list := nullable_takes (list_takes bound hinner)

theorem assign_takes {parts : Parts Reader} (h : PartsTake parts) (k : Keyword) (s : Schema)
    (i : Nat) (bs : List UInt8) : Takes (k.assign parts s) ⟨i, bs⟩ (Spaced ValueText) := by
  cases k with
  | ref | title | description => exact (h.text i bs).map _
  | type => exact (h.type i bs).map _
  | properties | definitions | defs => exact (h.named i bs).map _
  | required => exact (h.names i bs).map _
  | items => exact (h.items i bs).map _
  | additionalProperties => exact (h.values i bs).map _
  | allOf | anyOf | oneOf => exact (h.list i bs).map _

/-! ## Schemas -/

section

variable {parts : Parts Reader} (h : PartsTake parts)
include h

theorem readMember_takes (state : Schema × List Keyword) (name : String) (i : Nat)
    (bs : List UInt8) : Takes (readMember bound parts state name) ⟨i, bs⟩ EndsMember := by
  obtain ⟨s, seen⟩ := state
  unfold readMember
  dsimp only
  cases Keyword.ofName? name with
  | none => exact .member fun i bs => (skipValue_takes bound bound i bs).map fun _ => (s, seen)
  | some k =>
    dsimp only
    split
    · exact misfit_takes objectEndIndex_staysWithin _
    · exact .member fun i bs => (assign_takes h k s i bs).map fun s => (s, k :: seen)

theorem readElements_takes (keywords : List Keyword) (s : Schema) (i : Nat) (bs : List UInt8) :
    Takes (readElements parts keywords s) ⟨i, bs⟩ (HasTail ValueText Byte.closeBracket) := by
  induction keywords generalizing s i bs with
  | nil => exact (listEnd_takes i bs).map fun _ => s
  | cons k keywords ih =>
    unfold readElements
    refine .token (fun _ _ _ => .failNext _) fun _ blanks x rest hblanks => ?_
    dsimp only
    by_cases hclose : x = Byte.closeBracket
    · rw [if_pos hclose, hclose]
      exact .eat (.pure _ (.nil hblanks))
    by_cases hcomma : x = Byte.comma
    · rw [if_neg hclose, if_pos hcomma, hcomma]
      refine .eat (.token (fun _ _ _ => .failNext _) fun _ blanks' y rest hblanks' => ?_)
      dsimp only
      split
      · exact .failNext _
      · refine (assign_takes h k s _ _).bind fun s text _ _ htext => ?_
        refine (ih s _ _).mono fun tail htail => ?_
        rw [← List.append_assoc blanks']
        exact .cons hblanks (htext.blanks hblanks') htail
    · rw [if_neg hclose, if_neg hcomma]
      exact .failNext _

theorem readList_takes (i : Nat) (bs : List UInt8) :
    Takes (readList parts) ⟨i, bs⟩ (HasBody ValueText Byte.closeBracket) := by
  unfold readList
  refine .token (fun _ _ _ => .failNext _) fun _ blanks x rest hblanks => ?_
  dsimp only
  by_cases hclose : x = Byte.closeBracket
  · rw [if_pos hclose, hclose]
    exact .eat (.pure _ (.nil hblanks))
  · rw [if_neg hclose]
    refine (assign_takes h .ref empty _ _).bind fun s text _ _ htext => ?_
    refine (readElements_takes h _ s _ _).mono fun tail htail => ?_
    rw [← List.append_assoc]
    exact .cons (htext.blanks hblanks) htail

end

theorem readWith_takes {parts : Option ((Cursor → Nat) → Parts Reader)}
    (h : ∀ p ∈ parts, ∀ ending, StaysWithin ending → PartsTake (p ending)) (i : Nat)
    (bs : List UInt8) : Takes (readWith bound parts) ⟨i, bs⟩ (Spaced ValueText) := by
  unfold readWith
  refine .token (fun _ _ _ => .failNext _) fun _ blanks x rest hblanks => ?_
  dsimp only
  split
  · next hx =>
    cases parts with
    | none => exact .failNext _
    | some p =>
      have hparts := h p rfl _ objectEndIndex_staysWithin
      refine hx ▸ .eat ((Takes.mono ?_ fun _ => spaced_object hblanks).map Prod.fst)
      exact members_takes (readMember_takes hparts) (empty, []) _ _
  split
  · next hx =>
    cases parts with
    | none => exact .failNext _
    | some p =>
      have hparts := h p rfl _ listEndIndex_staysWithin
      exact hx ▸ .eat ((readList_takes hparts _ _).mono fun _ => spaced_array hblanks)
  · exact refuseKind_takes _ _ _ _ _

theorem read_takes (bound : Nat) : ∀ (room i : Nat) (bs : List UInt8),
    Takes (read bound room) ⟨i, bs⟩ (Spaced ValueText)
  | 0 => readWith_takes fun _ hp => nomatch hp
  | 1 => readWith_takes fun _ hp _ => Option.some.inj hp ▸
      @readParts_takes bound none (fun _ hr => nomatch hr) 0 _
  | room + 2 => readWith_takes fun _ hp _ => Option.some.inj hp ▸
      readParts_takes (fun _ hr => Option.some.inj hr ▸ read_takes bound room) (room + 1)

/-! ## Texts -/

/-- If nothing is left after blanks, there was nothing but blanks. -/
theorem blanks_of_skipBlanks {c : Cursor} (h : c.skipBlanks.rest = []) : Blanks c.rest := by
  have hle : c.rest.length ≤ (c.rest.takeWhile Byte.isBlank).length := List.drop_eq_nil_iff.mp h
  have hall : c.rest.takeWhile Byte.isBlank = c.rest :=
    (List.takeWhile_prefix _).eq_of_length_le hle
  intro b hb
  rw [← hall] at hb
  exact List.all_eq_true.mp List.all_takeWhile b hb

/-- What is read as a schema is a JSON text. -/
theorem readText_isText {bytes : List UInt8} {s : Schema} (h : readText bytes = .ok s) :
    ∃ t, IsText t bytes := by
  have htakes := read_takes bytes.length nestingLimit 0 bytes
  unfold readText at h
  cases hrun : read bytes.length nestingLimit (Cursor.start bytes) with
  | error e =>
    rw [hrun] at h
    exact absurd h nofun
  | ok x =>
    obtain ⟨s', c⟩ := x
    obtain ⟨taken, hbytes, -, blanks, text, t, hblanks, htext, rfl⟩ := htakes.of_ok hrun
    rw [hrun] at h
    by_cases hend : c.skipBlanks.rest = []
    · have htext := IsText.mk hblanks htext (blanks_of_skipBlanks hend)
      rw [← List.append_assoc, ← hbytes] at htext
      exact ⟨t, htext⟩
    · simp only [bind, Except.bind, List.isEmpty_iff, hend] at h
      exact absurd h nofun

/-- A reading that fails stands within the text. -/
theorem readText_error_index_le {bytes : List UInt8} {e : Failure} (h : readText bytes = .error e) :
    e.index ≤ bytes.length := by
  have htakes := read_takes bytes.length nestingLimit 0 bytes
  unfold readText at h
  cases hrun : read bytes.length nestingLimit (Cursor.start bytes) with
  | error e' =>
    have hle := htakes.of_error hrun
    rw [hrun] at h
    cases h
    rwa [Nat.zero_add] at hle
  | ok x =>
    obtain ⟨s', c⟩ := x
    obtain ⟨taken, hbytes, hindex, -⟩ := htakes.of_ok hrun
    rw [hrun] at h
    by_cases hend : c.skipBlanks.rest = []
    · simp only [bind, Except.bind, List.isEmpty_iff, hend] at h
      exact absurd h nofun
    · simp only [bind, Except.bind, List.isEmpty_iff, hend] at h
      cases h
      have hle := nextIndex_le c.skipBlanks
      rw [skipBlanks_end, hindex, Nat.zero_add, ← List.length_append, ← hbytes] at hle
      exact hle

/-- Nothing but JSON texts are parsed as schemas. -/
theorem parse_isText {document text : String} {s : Schema} (h : parse document text = .ok s) :
    ∃ t, IsText t (Utf8.encode text) := by
  unfold parse at h
  dsimp only at h
  cases hrun : readText (Utf8.encode text) with
  | error e =>
    rw [hrun] at h
    exact absurd h nofun
  | ok s' => exact readText_isText hrun

end SchemaToGo.Schema
