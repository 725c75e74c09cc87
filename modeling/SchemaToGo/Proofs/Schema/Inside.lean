import SchemaToGo.Proofs.Schema.Whole
set_option autoImplicit false

/-!
# Schemas inside schemas

A schema under `items` or `additionalProperties` is accepted where its text alone is, if all
literals in it have values, and then it is the same schema.  Otherwise it is refused there, even if
the literals without values are those of members that no schema keeps.
-/

namespace SchemaToGo

theorem Utf8.encode_append (s t : String) : encode (s ++ t) = encode s ++ encode t := by
  unfold encode
  rw [String.toList_append, List.flatMap_append]

namespace Schema

open Json Json.Reader

/-! ## Objects with one member -/

/-- The text of an object with one member. -/
def inMember (key text : String) : String := "\x7b\"" ++ key ++ "\": " ++ text ++ "\x7d"

theorem isText_inMember (k : Keyword) {text : String} {t : Tree} (h : IsText t (Utf8.encode text)) :
    IsText (.object [(some k.name, t)]) (Utf8.encode (inMember k.name text)) := by
  have hencode : Utf8.encode k.name = asciiBytes k.name := by cases k <;> decide +kernel
  have hplain : (asciiBytes k.name).all isPlain = true := by cases k <;> decide +kernel
  have hdecode : decodeLiteral? (quoted (asciiBytes k.name)) = some k.name := by
    cases k <;> decide +kernel
  have hkey : StringLiteral (quoted (asciiBytes k.name)) :=
    .quoted (.of_plain (List.all_eq_true.mp hplain))
  have hopen : Utf8.encode "\x7b\"" = [Byte.openBrace, Byte.quote] := by decide +kernel
  have hcolon : Utf8.encode "\": " = [Byte.quote, Byte.colon, 0x20] := by decide +kernel
  have hclose : Utf8.encode "\x7d" = [Byte.closeBrace] := by decide +kernel
  unfold inMember
  simp only [Utf8.encode_append, hopen, hcolon, hclose, hencode]
  generalize Utf8.encode text = bytes at h
  obtain @⟨blanks, bs, blanks', hblanks, htext, hblanks'⟩ := h
  have hspace : Blanks (0x20 :: blanks) := List.forall_mem_cons.mpr ⟨by decide, hblanks⟩
  have hmember := MemberText.mk hkey .nil hspace htext
  rw [hdecode] at hmember
  have hobject := IsText.mk .nil (.object (.cons .nil hmember (.nil hblanks'))) .nil
  refine Eq.mp (congrArg (IsText _) ?_) hobject
  simp only [quoted, List.cons_append, List.append_assoc, List.nil_append, List.append_nil]

/-- The schema of an object with one keyword. -/
theorem ofTree?_member (room : Nat) (k : Keyword) (t : Tree) :
    ofTree? (room + 1) (.object [(some k.name, t)]) =
      k.assign (partsOfTree room (innerOfTree? room)) empty t := by
  rw [ofTree?_succ]
  have hname : Keyword.ofName? k.name = some k := Keyword.ofName?_eq_some_iff.mpr rfl
  have hassign (parts : Parts (ReaderT Tree Option)) :
      assignMember? parts (empty, []) k.name t =
        (k.assign parts empty t).map fun s => (s, [k]) := by
    unfold assignMember?
    rw [hname]
    rfl
  simp only [ofTreeWith?, Option.bind_some, foldMembers?, List.foldlM_cons, List.foldlM_nil, id,
    hassign]
  cases k.assign (partsOfTree room (innerOfTree? room)) empty t with
  | none => rfl
  | some s => rfl

/-! ## Values -/

variable {t : Tree} {room : Nat}

/-- The schema of all elements, if there is one. -/
theorem assign_items_object (s : Schema) {ms : List (Option String × Tree)} :
    Keyword.items.assign (partsOfTree room (innerOfTree? room)) s (.object ms) =
      ((Tree.value? room (.object ms)).bind ofValue?).map
        fun item => { s with items := some (.uniform item) } := by
  show ((((Tree.object ms).value? room).bind (Elements.ofValue? ofValue?)).map some).bind _ = _
  cases hv : (Tree.object ms).value? room with
  | none => rfl
  | some v =>
    cases Tree.hasValue_of_value? hv with
    | @object _ _ es _ =>
      show (((ofValue? (.object es)).map _).map some).bind _ = (ofValue? (.object es)).map _
      cases ofValue? (.object es) with
      | none => rfl
      | some s => rfl

theorem assign_additionalProperties_object (s : Schema) {ms : List (Option String × Tree)} :
    Keyword.additionalProperties.assign (partsOfTree room (innerOfTree? room)) s (.object ms) =
      ((Tree.value? room (.object ms)).bind ofValue?).map
        fun values => { s with additionalProperties := some (.schema values) } := by
  show ((((Tree.object ms).value? room).bind (OtherValues.ofValue? ofValue?)).map some).bind _ = _
  cases hv : (Tree.object ms).value? room with
  | none => rfl
  | some v =>
    cases Tree.hasValue_of_value? hv with
    | @object _ _ es _ =>
      show (((ofValue? (.object es)).map _).map some).bind _ = (ofValue? (.object es)).map _
      cases ofValue? (.object es) with
      | none => rfl
      | some s => rfl

/-- A schema that is read whole is one that is read on its own and all literals of which have
values. -/
theorem bind_ofValue?_eq_some_iff {limit : Nat} (hroom : t.nesting ≤ room) (hlimit : room ≤ limit)
    {s : Schema} :
    (t.value? room).bind ofValue? = some s ↔ t.Decodes ∧ ofTree? limit t = some s := by
  cases hv : t.value? room with
  | none =>
    refine iff_of_false nofun fun h => ?_
    have hsome := (Tree.isSome_value?_iff room t).mpr ⟨h.1, hroom⟩
    rw [hv] at hsome
    exact Bool.false_ne_true hsome
  | some v =>
    have hdecodes := ((Tree.isSome_value?_iff room t).mp (hv ▸ rfl)).1
    rw [Option.bind_some, ofTree?_eq_ofValue? (Tree.value?_mono hlimit hv)]
    exact ⟨fun h => ⟨hdecodes, h⟩, And.right⟩

section

variable {text : String} {ms : List (Option String × Tree)}
  (h : IsText (.object ms) (Utf8.encode text)) (hroom : (Tree.object ms).nesting < nestingLimit)
include h hroom

theorem parse_inMember_of_assign {k : Keyword} {wrap : Schema → Schema}
    (hassign : k.assign (partsOfTree 126 (innerOfTree? 126)) empty (.object ms) =
      (((Tree.object ms).value? 126).bind ofValue?).map wrap) (document : String) (s' : Schema) :
    parse document (inMember k.name text) = .ok s' ↔
      (Tree.object ms).Decodes ∧ ∃ s, parse document text = .ok s ∧ s' = wrap s := by
  have hwhole (s : Schema) : ((Tree.object ms).value? 126).bind ofValue? = some s ↔
      (Tree.object ms).Decodes ∧ parse document text = .ok s := by
    rw [parse_eq_ok_iff h]
    exact bind_ofValue?_eq_some_iff (Nat.le_of_lt_succ hroom) (Nat.le_succ 126)
  have hmember : ofTree? nestingLimit (.object [(some k.name, .object ms)]) = _ :=
    ofTree?_member 126 k (.object ms)
  rw [parse_eq_ok_iff (isText_inMember k h), hmember, hassign, Option.map_eq_some_iff]
  constructor
  · rintro ⟨s, hs, rfl⟩
    exact ⟨((hwhole s).mp hs).1, s, ((hwhole s).mp hs).2, rfl⟩
  · rintro ⟨hdecodes, s, hs, rfl⟩
    exact ⟨s, (hwhole s).mpr ⟨hdecodes, hs⟩, rfl⟩

/-- A text of an object that is not nested too deeply is accepted under `items` and under
`additionalProperties` if it is accepted on its own and all literals in it have values; and then it
is read as the same schema. -/
theorem parse_inMember_iff (document : String) (s' : Schema) :
    (parse document (inMember "items" text) = .ok s' ↔
      (Tree.object ms).Decodes ∧ ∃ s, parse document text = .ok s ∧
        s' = { empty with items := some (.uniform s) }) ∧
    (parse document (inMember "additionalProperties" text) = .ok s' ↔
      (Tree.object ms).Decodes ∧ ∃ s, parse document text = .ok s ∧
        s' = { empty with additionalProperties := some (.schema s) }) :=
  ⟨parse_inMember_of_assign h hroom (k := .items) (assign_items_object empty) document s',
    parse_inMember_of_assign h hroom (k := .additionalProperties)
      (assign_additionalProperties_object empty) document s'⟩

end

/-- A text of a schema with one keyword. -/
def typeOnly : String := "\x7b\"type\": \"object\"\x7d"

theorem parse_inMember_iff_typeOnly :
    parse "schema.json" (inMember "items" typeOnly) =
        .ok { empty with items := some (.uniform { empty with type := some (.single "object") }) } ∧
      parse "schema.json" (inMember "additionalProperties" typeOnly) =
        .ok { empty with
          additionalProperties :=
            some (.schema { empty with type := some (.single "object") }) } := by
  have hmember := @memberText_wordMember "type" "object" (by decide +kernel) (by decide +kernel)
    [] [0x20] .nil (by decide)
  have htext : IsText (.object [wordMember "type" "object"]) (Utf8.encode typeOnly) := by
    have h := IsText.mk .nil (.object (.cons .nil hmember (.nil .nil))) .nil
    refine Eq.mp (congrArg (IsText _) ?_) h
    decide +kernel
  have hkey : decodeLiteral? (quoted (asciiBytes "type")) = some "type" := by decide +kernel
  have hvalue : decodeLiteral? (quoted (asciiBytes "object")) = some "object" := by decide +kernel
  have hdecodes : (Tree.object [wordMember "type" "object"]).Decodes := by
    unfold wordMember
    rw [hkey, hvalue]
    exact .object (List.forall_mem_singleton.mpr rfl) (List.forall_mem_singleton.mpr (.string _))
  have halone : parse "schema.json" typeOnly = .ok { empty with type := some (.single "object") } :=
    rfl
  have hinside := parse_inMember_iff htext (by decide +kernel) "schema.json"
  exact ⟨(hinside _).1.mpr ⟨hdecodes, _, halone, rfl⟩, (hinside _).2.mpr ⟨hdecodes, _, halone, rfl⟩⟩

/-- A member that no schema keeps is passed over where a schema stands alone, but not under
`items`, if its value is a number out of range. -/
theorem parse_items_outOfRange :
    (parse "schema.json" "\x7b\"x\": 1e400\x7d").isOk = true ∧
      (parse "schema.json" (inMember "items" "\x7b\"x\": 1e400\x7d")).isOk = false := by
  decide +kernel

end Schema

end SchemaToGo
