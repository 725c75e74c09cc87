import SchemaToGo.Proofs.Json.Misfits
import SchemaToGo.Proofs.Schema.Form
import SchemaToGo.Proofs.Schema.Inside
import SchemaToGo.Proofs.Schema.Takes
set_option autoImplicit false

/-!
# What is no schema is a misfit

A text that does not have the form of a schema is refused for a misfit, and not as a faulty text,
if it is legible: the literals that are decoded have values, the arrays and objects that are
entered are not nested too deeply, and no array that stands for a schema has more elements than
there are keywords.
-/

namespace SchemaToGo.Schema

open Json Json.Reader

/-! ## Legible trees -/

/-- There is room for the object that the tree may be, its keys have values and `p` holds of what is
under them; or the literal that the tree is has a value.  Without `p` there is no room for an
object. -/
def LegibleNamed (p : Option (Tree → Prop)) : Tree → Prop
  | .object ms => ∃ q, p = some q ∧ ∀ m ∈ ms, (∃ key, m.1 = some key) ∧ q m.2
  | t => t.LiteralDecodes

/-- What is decoded of a keyword's value has a value, and there is room for it.  `inside` says this
of schemas that stand inside an array or an object.  Keywords that take several kinds of value
decode all of it. -/
def LegibleUnder (room : Nat) (inside : Option (Tree → Prop)) : Keyword → Tree → Prop
  | .ref | .title | .description => Tree.LiteralDecodes
  | .type | .items | .additionalProperties => fun t => t.Decodes ∧ t.nesting ≤ room
  | .required => Tree.LegibleList (if room = 0 then none else some Tree.LiteralDecodes)
  | .properties | .definitions | .defs => LegibleNamed inside
  | .allOf | .anyOf | .oneOf => Tree.LegibleList inside

/-- What is decoded of a schema has a value when `p` says so of the values of its keywords, and an
array has no more elements than there are keywords.  Without `p` there is no room for the schema. -/
def LegibleWith (p : Option (Keyword → Tree → Prop)) : Tree → Prop
  | .object ms => ∃ q, p = some q ∧
      ∀ m ∈ ms, ∃ name, m.1 = some name ∧ ∀ k, Keyword.ofName? name = some k → q k m.2
  | .array ts => ∃ q, p = some q ∧ ts.length ≤ Keyword.all.length ∧
      ∀ k v, (k, v) ∈ Keyword.all.zip ts → q k v
  | t => t.LiteralDecodes

/-- What is decoded of a schema has a value, and there is room for so many arrays and objects inside
each other.  Of members that no schema keeps only the keys are decoded. -/
def Legible : Nat → Tree → Prop
  | 0 => LegibleWith none
  | 1 => LegibleWith (some (LegibleUnder 0 none))
  | room + 2 => LegibleWith (some (LegibleUnder (room + 1) (some (Legible room))))

theorem LegibleNamed.literalDecodes {p : Option (Tree → Prop)} {t : Tree} (h : LegibleNamed p t) :
    t.LiteralDecodes := by
  cases t with
  | object ms => exact .object ms
  | _ => exact h

theorem LegibleWith.literalDecodes {p : Option (Keyword → Tree → Prop)} {t : Tree}
    (h : LegibleWith p t) : t.LiteralDecodes := by
  cases t with
  | array ts => exact .array ts
  | object ms => exact .object ms
  | _ => exact h

/-! ## Keywords -/

variable {bound : Nat}

theorem alternative_misfits {α : Type} (ending : Cursor → Nat) (choice : Choice)
    (ofValue? : Value → Option α) (room : Nat) :
    MisfitsOn (alternative ending choice (value bound room) ofValue?)
      (fun t => t.Decodes ∧ t.nesting ≤ room) bound := by
  refine nullable_misfits fun t bs htext hlength ht blanks rest hblanks hrest => ?_
  obtain ⟨v, hv⟩ := Option.isSome_iff_exists.mp ((Tree.isSome_value?_iff room t).mpr ht)
  have hread := value_reads bound room htext hlength hblanks hrest
  rw [hv] at hread
  refine .bind_some hread ?_
  cases ofValue? v with
  | none => exact .of_error fun _ => ⟨_, _, rfl⟩
  | some a => exact .pure a

theorem namedMember_misfits {item : Reader Schema} {P : Tree → Prop}
    (hitem : MisfitsOn item P bound) :
    MemberMisfitsOn
      (fun es key => do
        colon
        return Entries.insert key (← item) es) (fun _ t => P t) bound := by
  intro es key t bs htext hlength ht blanks blanks' rest hblanks hblanks' hrest
  exact colon_misfits hblanks ((hitem htext hlength ht hblanks' hrest).map _)

theorem named_misfits {schema : Option (Reader Schema)} {P : Option (Tree → Prop)}
    (hschema : MisfitsInside schema P bound) :
    MisfitsOn (named bound schema) (LegibleNamed P) bound := by
  intro t bs htext hlength ht blanks rest hblanks hrest
  have hrefuse := refuseKind_misfits (α := List (String × Schema)) htext ht.literalDecodes hlength
    .map hrest
  unfold named
  cases htext with
  | @object ms _ h =>
    have hlength := Nat.le_of_succ_le hlength
    obtain ⟨p, hp, hms⟩ := ht
    obtain ⟨r, f, rfl, hreads, hmisfits⟩ := hschema p hp
    have hms : ∀ m ∈ ms, ∃ key, m.1 = some key ∧ p m.2 := fun m hm =>
      (hms m hm).1.imp fun _ hkey => ⟨hkey, (hms m hm).2⟩
    refine .token hblanks (by decide) (.eat ?_)
    exact members_misfits (namedMember_reads hreads) (namedMember_misfits hmisfits) h hms hlength
      hlength [] rest
  | number h =>
    refine .numberToken h hblanks fun x hx => ?_
    dsimp only
    rw [if_neg (ne_of_startsNumber hx (by decide) (by decide))]
    exact hrefuse
  | string h =>
    obtain ⟨_⟩ := h
    exact .token hblanks (by decide) hrefuse
  | _ => exact .token hblanks (by decide) hrefuse

theorem names_misfits (room : Nat) :
    MisfitsInside (if room = 0 then none else some (text bound))
      (if room = 0 then none else some Tree.LiteralDecodes) bound := by
  split
  · exact .none
  · exact .some text_reads text_misfits

/-- The value of a keyword is refused for misfits only. -/
theorem assign_misfits (room : Nat) {inner : Option (Reader Schema)}
    {inside : Option (Tree → Prop)} (hinner : MisfitsInside inner inside bound)
    (ending : Cursor → Nat) (k : Keyword) (s : Schema) :
    MisfitsOn (k.assign (readParts bound room inner ending) s) (LegibleUnder room inside k)
      bound := by
  intro t bs htext hlength ht blanks rest hblanks hrest
  cases k with
  | ref | title | description =>
    exact (nullable_misfits text_misfits htext hlength ht hblanks hrest).map _
  | type | items | additionalProperties =>
    exact (alternative_misfits _ _ _ room htext hlength ht hblanks hrest).map _
  | properties | definitions | defs =>
    exact (nullable_misfits (named_misfits hinner) htext hlength ht hblanks hrest).map _
  | required =>
    have hnames := list_misfits (@names_misfits bound room)
    exact (nullable_misfits hnames htext hlength ht hblanks hrest).map _
  | allOf | anyOf | oneOf =>
    exact (nullable_misfits (list_misfits hinner) htext hlength ht hblanks hrest).map _

/-! ## Schemas -/

section

variable {parts : Parts Reader} {P : Keyword → Tree → Prop}
  (hassign : ∀ k s, MisfitsOn (k.assign parts s) (P k) bound)
include hassign

theorem readMember_misfits :
    MemberMisfitsOn (readMember bound parts)
      (fun name t => ∀ k, Keyword.ofName? name = some k → P k t) bound := by
  intro state name t bs htext hlength ht blanks blanks' rest hblanks hblanks' hrest
  obtain ⟨s, seen⟩ := state
  unfold readMember
  dsimp only
  cases hname : Keyword.ofName? name with
  | none =>
    refine colon_misfits hblanks ?_
    have hskip := skipValue_reads (Nat.le_refl bound) htext hlength hblanks' hrest
    exact .bind_some hskip (.pure (s, seen))
  | some k =>
    dsimp only
    split
    · exact .of_error fun _ => ⟨_, _, rfl⟩
    · refine colon_misfits hblanks ?_
      exact (hassign k s htext hlength (ht k hname) hblanks' hrest).map fun s => (s, k :: seen)

variable {f : Parts (ReaderT Tree Option)} (hreads : PartsReadAs parts f bound)
include hreads

theorem readElements_misfits {ts : List Tree} {bs : List UInt8}
    (htail : ListTail ValueText Byte.closeBracket ts bs) (hlength : bs.length ≤ bound)
    {keywords : List Keyword} (hshort : ts.length ≤ keywords.length)
    (hts : ∀ k v, (k, v) ∈ keywords.zip ts → P k v) (s : Schema) (rest : List UInt8) :
    Misfits (readElements parts keywords s) (bs ++ rest) := by
  induction htail generalizing keywords s with
  | @nil blanks hblanks =>
    rw [List.append_assoc]
    cases keywords with
    | nil =>
      have hend : Reads listEnd (blanks ++ Byte.closeBracket :: rest) (some ()) rest :=
        Reads.token hblanks (by decide) (.eat_last _ rest)
      exact .bind_some hend (.pure s)
    | cons k keywords => exact .token hblanks (by decide) (.eat (.pure s))
  | @cons blanks blanks' bs tail t ts hblanks hblanks' htext htail ih =>
    simp only [List.length_append, List.length_cons] at hlength
    cases keywords with
    | nil => exact absurd hshort (Nat.not_succ_le_zero _)
    | cons k keywords =>
      have hends := endsNumber_of_listTail (by decide) htail rest
      have hread := assign_reads hreads k s htext (by omega) .nil hends
      have hfirst := hassign k s htext (by omega) (hts k t List.mem_cons_self) .nil hends
      obtain ⟨x, more, rfl, hx, hclose⟩ := htext.exists_cons
      simp only [List.append_assoc, List.cons_append]
      refine .token hblanks (by decide) (.eat (.token hblanks' hx ?_))
      dsimp only
      rw [if_neg hclose]
      refine .bind hread hfirst fun s _ => ?_
      exact ih (by omega) (Nat.le_of_succ_le_succ hshort)
        (fun k v hmem => hts k v (List.mem_cons_of_mem _ hmem)) s

theorem readList_misfits {ts : List Tree} {bs : List UInt8}
    (hbody : ListBody ValueText Byte.closeBracket ts bs) (hlength : bs.length ≤ bound)
    (hshort : ts.length ≤ Keyword.all.length) (hts : ∀ k v, (k, v) ∈ Keyword.all.zip ts → P k v)
    (rest : List UInt8) : Misfits (readList parts) (bs ++ rest) := by
  unfold readList
  cases hbody with
  | nil hblanks =>
    rw [List.append_assoc]
    exact .token hblanks (by decide) (.eat (.pure empty))
  | @cons blanks bs tail t ts hblanks htext htail =>
    simp only [List.length_append] at hlength
    have hends := endsNumber_of_listTail (by decide) htail rest
    have hread := assign_reads hreads .ref empty htext (by omega) .nil hends
    have hfirst := hassign .ref empty htext (by omega) (hts .ref t List.mem_cons_self) .nil hends
    obtain ⟨x, more, rfl, hx, hclose⟩ := htext.exists_cons
    simp only [List.append_assoc, List.cons_append]
    refine .token hblanks hx ?_
    dsimp only
    rw [if_neg hclose]
    refine .bind hread hfirst fun s _ => ?_
    exact readElements_misfits hassign hreads htail (by omega) (Nat.le_of_succ_le_succ hshort)
      (fun k v hmem => hts k v (List.mem_cons_of_mem _ hmem)) s rest

end

theorem readWith_misfits {parts : Option ((Cursor → Nat) → Parts Reader)}
    {P : Option (Keyword → Tree → Prop)}
    (h : ∀ p, P = some p → ∃ q f, parts = some q ∧ ∀ ending, PartsReadAs (q ending) f bound ∧
      ∀ k s, MisfitsOn (k.assign (q ending) s) (p k) bound) :
    MisfitsOn (readWith bound parts) (LegibleWith P) bound := by
  intro t bs htext hlength ht blanks rest hblanks hrest
  have hrefuse := refuseKind_misfits (α := Schema) htext ht.literalDecodes hlength .schema hrest
  unfold readWith
  cases htext with
  | object hbody =>
    have hlength := Nat.le_of_succ_le hlength
    obtain ⟨p, hp, hms⟩ := ht
    obtain ⟨q, f, rfl, hparts⟩ := h p hp
    obtain ⟨hreads, hmisfits⟩ := hparts objectEndIndex
    refine .token hblanks (by decide) (.eat ?_)
    exact (members_misfits (readMember_reads hreads) (readMember_misfits hmisfits) hbody hms hlength
      hlength (empty, []) rest).map _
  | array hbody =>
    have hlength := Nat.le_of_succ_le hlength
    obtain ⟨p, hp, hshort, hts⟩ := ht
    obtain ⟨q, f, rfl, hparts⟩ := h p hp
    obtain ⟨hreads, hmisfits⟩ := hparts listEndIndex
    refine .token hblanks (by decide) (.eat ?_)
    exact readList_misfits hmisfits hreads hbody hlength hshort hts rest
  | number h =>
    refine .numberToken h hblanks fun x hx => ?_
    dsimp only
    rw [if_neg (ne_of_startsNumber hx (by decide) (by decide)),
      if_neg (ne_of_startsNumber hx (by decide) (by decide))]
    exact hrefuse
  | string h =>
    obtain ⟨_⟩ := h
    exact .token hblanks (by decide) hrefuse
  | _ => exact .token hblanks (by decide) hrefuse

theorem readWithParts_misfits (room : Nat) {inner : Option (Reader Schema)}
    {f : Option (Tree → Option Schema)} {inside : Option (Tree → Prop)}
    (hreads : Option.Rel (fun item f => ReadsAs item f bound) inner f)
    (hinner : MisfitsInside inner inside bound) :
    MisfitsOn (readWith bound (some (readParts bound room inner)))
      (LegibleWith (some (LegibleUnder room inside))) bound := by
  refine readWith_misfits fun p hp => ?_
  obtain rfl := Option.some.inj hp
  exact ⟨_, _, rfl, fun ending =>
    ⟨readParts_reads hreads room ending, assign_misfits room hinner ending⟩⟩

/-- A schema is refused for misfits only. -/
theorem read_misfits (bound : Nat) : ∀ room, MisfitsOn (read bound room) (Legible room) bound
  | 0 => readWith_misfits fun _ hp => nomatch hp
  | 1 => readWithParts_misfits 0 .none .none
  | room + 2 =>
    have hreads := read_reads bound room
    readWithParts_misfits (room + 1) (.some hreads) (.some hreads (read_misfits bound room))

/-! ## Texts -/

/-- A legible text that is no schema is refused for a misfit. -/
theorem parse_eq_mismatch {t : Tree} {document text : String} (h : IsText t (Utf8.encode text))
    (ht : Legible nestingLimit t) (hnone : ofTree? nestingLimit t = none) :
    ∃ l k d, parse document text = .error (.mismatch l k d) := by
  generalize hbytes : Utf8.encode text = bytes at h
  obtain ⟨e, hrun, m, hm⟩ : ∃ e, readText bytes = .error e ∧ ∃ m, e.cause = .misfit m := by
    obtain @⟨blanks, bs, blanks', hblanks, htext, hblanks'⟩ := h
    have hlength : bs.length ≤ (blanks ++ (bs ++ blanks')).length := by
      simp only [List.length_append]
      omega
    have hends : EndsNumber blanks' := List.append_nil blanks' ▸ EndsNumber.blanks hblanks' nofun
    have hread := read_reads _ nestingLimit htext hlength hblanks hends (Cursor.start _) rfl
    have hmisfits := read_misfits _ nestingLimit htext hlength ht hblanks hends (Cursor.start _) rfl
    rw [hnone] at hread
    obtain ⟨e, he⟩ := hread
    refine ⟨e, ?_, hmisfits e he⟩
    unfold readText
    rw [he]
    rfl
  unfold parse
  rw [hbytes]
  dsimp only
  rw [hrun]
  unfold ParseError.ofFailure
  dsimp only
  rw [hm]
  exact ⟨_, _, _, rfl⟩

/-- Wherever a schema is expected in an accepted text there stands an object or an array of the
values of keywords.  A legible text of which this is not so is refused for a misfit. -/
theorem parse_form (document text : String) :
    (∀ s, parse document text = .ok s →
      (∃ t, IsText t (Utf8.encode text)) ∧ ∀ t, IsText t (Utf8.encode text) → IsForm t) ∧
    ∀ t, IsText t (Utf8.encode text) → Legible nestingLimit t → ¬ IsForm t →
      ∃ l k d, parse document text = .error (.mismatch l k d) := by
  constructor
  · intro s hs
    exact ⟨parse_isText hs, fun t ht => isForm_of_ofTree? ((parse_eq_ok_iff ht).mp hs)⟩
  · intro t htext ht hform
    refine parse_eq_mismatch htext ht (Option.eq_none_iff_forall_ne_some.mpr fun s hs => ?_)
    exact hform (isForm_of_ofTree? hs)

/-- A number stands for no schema. -/
theorem parse_form_itemsNumber :
    (∀ t, IsText t (Utf8.encode typeOnly) → IsForm t) ∧
      ∃ l k d, parse "schema.json" (inMember "items" "5") = .error (.mismatch l k d) := by
  have halone : parse "schema.json" typeOnly = .ok { empty with type := some (.single "object") } :=
    rfl
  refine ⟨((parse_form "schema.json" typeOnly).1 _ halone).2, ?_⟩
  have hfive : WholePart [0x35] :=
    .digits (by decide) (by decide) fun _ h => absurd h List.not_mem_nil
  have hliteral : NumberLiteral [0x35] := .parts List.mem_cons_self hfive .absent .absent
  have hnumber : numberOfLiteral? [0x35] = some (.natural 5) := by decide +kernel
  have htext : IsText (.number (some (.natural 5))) (Utf8.encode "5") := by
    have h := IsText.mk .nil (.number hliteral) .nil
    rw [hnumber] at h
    exact h
  refine (parse_form "schema.json" (inMember "items" "5")).2 _ (isText_inMember .items htext) ?_ ?_
  · refine ⟨_, rfl, List.forall_mem_singleton.mpr ⟨_, rfl, fun k hk => ?_⟩⟩
    have hname : k.name = Keyword.items.name := Keyword.ofName?_eq_some_iff.mp hk
    obtain rfl := Keyword.name_injective hname
    exact ⟨.number _, Nat.zero_le _⟩
  · intro hform
    cases hform with
    | object h =>
      cases h .items _ List.mem_cons_self with
      | plain hk _ => exact absurd hk (by decide)
      | uniform h => exact nomatch h

/-- An array is accepted as a schema. -/
theorem parse_emptyArray : (parse "schema.json" "[]").isOk = true ∧
    ∀ ms, ¬ IsText (.object ms) (Utf8.encode "[]") := by
  refine ⟨by decide +kernel, fun ms h => ?_⟩
  have hbrace : Byte.openBrace ∈ Utf8.encode "[]" := by
    generalize Utf8.encode "[]" = bytes at h
    obtain ⟨_, ⟨_⟩, _⟩ := h
    exact List.mem_append_right _ List.mem_cons_self
  exact absurd hbrace (by decide +kernel)

end SchemaToGo.Schema
