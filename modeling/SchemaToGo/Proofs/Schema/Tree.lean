import SchemaToGo.Proofs.Json.Value
import SchemaToGo.Schema.Parse
set_option autoImplicit false

/-!
# Schemas of trees

A text is parsed as what its tree says and nothing else: `parse_eq_ok_iff` gives the schema of a
JSON text as a function of the tree.  Blanks, and the ways in which literals can be written, leave
no trace in a schema, and do not decide whether there is one.
-/

namespace SchemaToGo.Schema

open Json Json.Reader

/-! ## What trees say of schemas -/

/-- The schemas under the names of an object.  Of several with one name the last one stays.  Without
`schema?` there is no room for an object. -/
def namedOfTree? (schema? : Option (Tree → Option Schema)) :
    Tree → Option (List (String × Schema))
  | .object ms => schema?.bind fun f =>
      foldMembers? id (fun es key t => (f t).map fun s => Entries.insert key s es) [] ms
  | _ => none

/-- How keywords take trees, with room for `room` arrays and objects inside each other.  `inner`
takes a schema that stands inside such an array or object. -/
def partsOfTree (room : Nat) (inner : Option (Tree → Option Schema)) :
    Parts (ReaderT Tree Option) where
  text := Tree.unlessNull? Tree.text?
  type := Tree.unlessNull? fun t => (t.value? room).bind TypeNames.ofValue?
  named := Tree.unlessNull? (namedOfTree? inner)
  names := Tree.unlessNull? (Tree.list? (if room = 0 then none else some Tree.text?))
  items := Tree.unlessNull? fun t => (t.value? room).bind (Elements.ofValue? ofValue?)
  values := Tree.unlessNull? fun t => (t.value? room).bind (OtherValues.ofValue? ofValue?)
  list := Tree.unlessNull? (Tree.list? inner)

/-- A member of a schema put in its place.  No keyword may be repeated. -/
def assignMember? {σ : Type} (parts : Parts (ReaderT σ Option)) (state : Schema × List Keyword)
    (name : String) (v : σ) : Option (Schema × List Keyword) :=
  match Keyword.ofName? name with
  | none => some state
  | some k =>
    if k ∈ state.2 then none else (k.assign parts state.1 v).map fun s => (s, k :: state.2)

/-- The values of keywords put in their places, in the order of the keywords. -/
def assignElements? {σ : Type} (parts : Parts (ReaderT σ Option)) :
    List σ → List Keyword → Schema → Option Schema
  | [], _, s => some s
  | _ :: _, [], _ => none
  | v :: vs, k :: keywords, s => (k.assign parts s v).bind (assignElements? parts vs keywords)

/-- The schema of a tree whose keywords take their values by `parts`.  Without `parts` there is no
room for it. -/
def ofTreeWith? (parts : Option (Parts (ReaderT Tree Option))) : Tree → Option Schema
  | .object ms => parts.bind fun parts =>
      (foldMembers? id (assignMember? parts) (empty, []) ms).map Prod.fst
  | .array ts => parts.bind fun parts => assignElements? parts ts Keyword.all empty
  | _ => none

/-- The schema of a tree, with room for so many arrays and objects inside each other. -/
def ofTree? : Nat → Tree → Option Schema
  | 0 => ofTreeWith? none
  | 1 => ofTreeWith? (some (partsOfTree 0 none))
  | room + 2 => ofTreeWith? (some (partsOfTree (room + 1) (some (ofTree? room))))

/-! ## Keywords -/

variable {bound : Nat}

theorem alternative_reads {α : Type} {item : Reader Value} {f : Tree → Option Value} {limit : Nat}
    (hitem : ReadsAs item f limit) (ending : Cursor → Nat) (choice : Choice)
    (ofValue? : Value → Option α) :
    ReadsAs (alternative ending choice item ofValue?)
      (Tree.unlessNull? fun t => (f t).bind ofValue?) limit := by
  refine nullable_reads fun t bs htext hlength blanks rest hblanks hrest => ?_
  refine (hitem htext hlength hblanks hrest).bind fun v _ => ?_
  cases ofValue? v with
  | none => exact .of_error fun _ => ⟨_, rfl⟩
  | some a => exact .pure a rest

theorem namedMember_reads {item : Reader Schema} {f : Tree → Option Schema}
    (hitem : ReadsAs item f bound) :
    MemberReadsAs
      (fun es key => do
        colon
        return Entries.insert key (← item) es)
      (fun es key t => (f t).map fun s => Entries.insert key s es) bound := by
  intro es key t bs htext hlength blanks blanks' rest hblanks hblanks' hrest
  exact colon_reads hblanks ((hitem htext hlength hblanks' hrest).map _)

theorem named_reads {schema : Option (Reader Schema)} {f : Option (Tree → Option Schema)}
    (hschema : Option.Rel (fun item f => ReadsAs item f bound) schema f) :
    ReadsAs (named bound schema) (namedOfTree? f) bound := by
  intro t bs htext hlength blanks rest hblanks hrest
  unfold named
  cases htext with
  | @object ms _ h =>
    have hlength := Nat.le_of_succ_le hlength
    refine Reads.token hblanks (by decide) ?_
    cases hschema with
    | none => exact .failNext _
    | @some item f hitem =>
      exact Reads.eat (members_reads (namedMember_reads hitem) h hlength hlength [] rest)
  | number h =>
    refine Reads.numberToken h hblanks fun x hx => ?_
    dsimp only
    rw [if_neg (ne_of_startsNumber hx (by decide) (by decide))]
    exact refuseKind_fails _ _ _
  | string h =>
    obtain ⟨_⟩ := h
    exact Reads.token hblanks (by decide) (refuseKind_fails _ _ _)
  | _ => exact Reads.token hblanks (by decide) (refuseKind_fails _ _ _)

/-- The readers of the values of keywords read texts as what `f` makes of trees. -/
structure PartsReadAs (parts : Parts Reader) (f : Parts (ReaderT Tree Option)) (limit : Nat) :
    Prop where
  text : ReadsAs parts.text f.text limit
  type : ReadsAs parts.type f.type limit
  named : ReadsAs parts.named f.named limit
  names : ReadsAs parts.names f.names limit
  items : ReadsAs parts.items f.items limit
  values : ReadsAs parts.values f.values limit
  list : ReadsAs parts.list f.list limit

theorem readParts_reads {inner : Option (Reader Schema)} {f : Option (Tree → Option Schema)}
    (hinner : Option.Rel (fun item f => ReadsAs item f bound) inner f) (room : Nat)
    (ending : Cursor → Nat) :
    PartsReadAs (readParts bound room inner ending) (partsOfTree room f) bound where
  text := nullable_reads text_reads
  type := alternative_reads (value_reads bound room) _ _ _
  named := nullable_reads (named_reads hinner)
  names := by
    refine nullable_reads (list_reads ?_)
    split
    · exact .none
    · exact .some text_reads
  items := alternative_reads (value_reads bound room) _ _ _
  values := alternative_reads (value_reads bound room) _ _ _
  list := nullable_reads (list_reads hinner)

/-- A keyword takes its value from the text as it takes it from the tree. -/
theorem assign_reads {parts : Parts Reader} {f : Parts (ReaderT Tree Option)} {limit : Nat}
    (h : PartsReadAs parts f limit) (k : Keyword) (s : Schema) :
    ReadsAs (k.assign parts s) (k.assign f s) limit := by
  intro t bs htext hlength blanks rest hblanks hrest
  cases k with
  | ref | title | description =>
    exact Reads.bind (h.text htext hlength hblanks hrest) fun _ _ => .pure _ rest
  | type => exact Reads.bind (h.type htext hlength hblanks hrest) fun _ _ => .pure _ rest
  | properties | definitions | defs =>
    exact Reads.bind (h.named htext hlength hblanks hrest) fun _ _ => .pure _ rest
  | required => exact Reads.bind (h.names htext hlength hblanks hrest) fun _ _ => .pure _ rest
  | items => exact Reads.bind (h.items htext hlength hblanks hrest) fun _ _ => .pure _ rest
  | additionalProperties =>
    exact Reads.bind (h.values htext hlength hblanks hrest) fun _ _ => .pure _ rest
  | allOf | anyOf | oneOf =>
    exact Reads.bind (h.list htext hlength hblanks hrest) fun _ _ => .pure _ rest

/-! ## Schemas -/

section

variable {parts : Parts Reader} {f : Parts (ReaderT Tree Option)}

theorem readMember_reads (h : PartsReadAs parts f bound) :
    MemberReadsAs (readMember bound parts) (assignMember? f) bound := by
  intro state name t bs htext hlength blanks blanks' rest hblanks hblanks' hrest
  obtain ⟨s, seen⟩ := state
  unfold readMember assignMember?
  dsimp only
  cases Keyword.ofName? name with
  | none =>
    refine colon_reads hblanks ?_
    have hskip := skipValue_reads (Nat.le_refl bound) htext hlength hblanks' hrest
    exact hskip.bind_some (.pure (s, seen) rest)
  | some k =>
    dsimp only
    split
    · exact .of_error fun _ => ⟨_, rfl⟩
    · refine colon_reads hblanks ?_
      exact (assign_reads h k s htext hlength hblanks' hrest).map fun s => (s, k :: seen)

/-- The values of keywords are put in their places as the elements of an array. -/
theorem readElements_reads (h : PartsReadAs parts f bound) {ts : List Tree} {bs : List UInt8}
    (htail : ListTail ValueText Byte.closeBracket ts bs) (hlength : bs.length ≤ bound)
    (keywords : List Keyword) (s : Schema) (rest : List UInt8) :
    Reads (readElements parts keywords s) (bs ++ rest) (assignElements? f ts keywords s) rest := by
  induction htail generalizing keywords s with
  | @nil blanks hblanks =>
    rw [List.append_assoc]
    cases keywords with
    | nil =>
      have hend : Reads listEnd (blanks ++ Byte.closeBracket :: rest) (some ()) rest :=
        Reads.token hblanks (by decide) (.eat_last _ rest)
      exact hend.bind_some (.pure s rest)
    | cons k keywords => exact Reads.token hblanks (by decide) (Reads.eat (.pure s rest))
  | @cons blanks blanks' bs tail t ts hblanks hblanks' htext htail ih =>
    simp only [List.length_append, List.length_cons] at hlength
    obtain ⟨x, more, rfl, hx, hclose⟩ := htext.exists_cons
    simp only [List.append_assoc, List.cons_append]
    cases keywords with
    | nil =>
      have hend : Reads listEnd
          (blanks ++ Byte.comma :: (blanks' ++ x :: (more ++ (tail ++ rest)))) none rest := by
        refine Reads.token hblanks (by decide) (Reads.eat (Reads.token hblanks' hx ?_))
        split
        · exact .failNext _
        · exact .failNext _
      exact hend.bind_none
    | cons k keywords =>
      refine Reads.token hblanks (by decide) (Reads.eat (Reads.token hblanks' hx ?_))
      dsimp only
      rw [if_neg hclose]
      refine Reads.bind (assign_reads h k s htext (by omega) .nil
        (endsNumber_of_listTail (by decide) htail rest)) fun s _ => ?_
      exact ih (by omega) keywords s

theorem readList_reads (h : PartsReadAs parts f bound) {ts : List Tree} {bs : List UInt8}
    (hbody : ListBody ValueText Byte.closeBracket ts bs) (hlength : bs.length ≤ bound)
    (rest : List UInt8) :
    Reads (readList parts) (bs ++ rest) (assignElements? f ts Keyword.all empty) rest := by
  unfold readList
  cases hbody with
  | nil hblanks =>
    rw [List.append_assoc]
    exact Reads.token hblanks (by decide) (Reads.eat (.pure empty rest))
  | cons hblanks htext htail =>
    simp only [List.length_append] at hlength
    obtain ⟨x, more, rfl, hx, hclose⟩ := htext.exists_cons
    simp only [List.append_assoc, List.cons_append]
    refine Reads.token hblanks hx ?_
    dsimp only
    rw [if_neg hclose]
    refine Reads.bind (assign_reads h .ref empty htext (by omega) .nil
      (endsNumber_of_listTail (by decide) htail rest)) fun s _ => ?_
    exact readElements_reads h htail (by omega) _ s rest

end

theorem readWith_reads {parts : Option ((Cursor → Nat) → Parts Reader)}
    {f : Option (Parts (ReaderT Tree Option))}
    (h : Option.Rel (fun p f => ∀ ending, PartsReadAs (p ending) f bound) parts f) :
    ReadsAs (readWith bound parts) (ofTreeWith? f) bound := by
  intro t bs htext hlength blanks rest hblanks hrest
  unfold readWith
  cases htext with
  | object hbody =>
    have hlength := Nat.le_of_succ_le hlength
    refine Reads.token hblanks (by decide) ?_
    cases h with
    | none => exact .failNext _
    | some h =>
      refine Reads.eat ?_
      have hmembers :=
        members_reads (readMember_reads (h objectEndIndex)) hbody hlength hlength (empty, []) rest
      exact hmembers.map Prod.fst
  | array hbody =>
    have hlength := Nat.le_of_succ_le hlength
    refine Reads.token hblanks (by decide) ?_
    cases h with
    | none => exact .failNext _
    | some h => exact Reads.eat (readList_reads (h listEndIndex) hbody hlength rest)
  | number h =>
    refine Reads.numberToken h hblanks fun x hx => ?_
    dsimp only
    rw [if_neg (ne_of_startsNumber hx (by decide) (by decide)),
      if_neg (ne_of_startsNumber hx (by decide) (by decide))]
    exact refuseKind_fails _ _ _
  | string h =>
    obtain ⟨_⟩ := h
    exact Reads.token hblanks (by decide) (refuseKind_fails _ _ _)
  | _ => exact Reads.token hblanks (by decide) (refuseKind_fails _ _ _)

theorem read_reads (bound : Nat) : ∀ room, ReadsAs (read bound room) (ofTree? room) bound
  | 0 => readWith_reads .none
  | 1 => readWith_reads (.some (readParts_reads .none 0))
  | room + 2 => readWith_reads (.some (readParts_reads (.some (read_reads bound room)) (room + 1)))

/-! ## Texts -/

/-- A JSON text is parsed as the schema of its tree, if that is one. -/
theorem parse_eq_ok_iff {t : Tree} {document text : String} (h : IsText t (Utf8.encode text))
    {s : Schema} : parse document text = .ok s ↔ ofTree? nestingLimit t = some s := by
  generalize hbytes : Utf8.encode text = bytes at h
  have hrun : readText bytes = .ok s ↔ ofTree? nestingLimit t = some s := by
    obtain @⟨blanks, bs, blanks', hblanks, htext, hblanks'⟩ := h
    have hlength : bs.length ≤ (blanks ++ (bs ++ blanks')).length := by
      simp only [List.length_append]
      omega
    have hends : EndsNumber blanks' := List.append_nil blanks' ▸ EndsNumber.blanks hblanks' nofun
    have hread := read_reads _ nestingLimit htext hlength hblanks hends (Cursor.start _) rfl
    unfold readText
    cases hvalue : ofTree? nestingLimit t with
    | none =>
      rw [hvalue] at hread
      obtain ⟨e, he⟩ := hread
      rw [he]
      exact ⟨nofun, nofun⟩
    | some s' =>
      rw [hvalue] at hread
      obtain ⟨c, hc, hrest⟩ := hread
      have hend : c.skipBlanks.rest = [] := by
        show c.rest.drop (c.rest.takeWhile Byte.isBlank).length = []
        rw [hrest, ← List.append_nil blanks', List.takeWhile_append_of_pos hblanks',
          List.takeWhile_nil, List.drop_length]
      rw [hc]
      simp only [bind, Except.bind, hend, List.isEmpty_nil, if_true, pure, Except.pure,
        Except.ok.injEq, Option.some.injEq]
  unfold parse
  rw [hbytes]
  dsimp only
  rw [← hrun]
  cases readText bytes with
  | error failure => exact ⟨nofun, nofun⟩
  | ok s' => exact ⟨fun h => congrArg _ (Except.ok.inj h), fun h => congrArg _ (Except.ok.inj h)⟩

end SchemaToGo.Schema
