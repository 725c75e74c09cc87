import SchemaToGo.Proofs.Schema.Tree
import SchemaToGo.Proofs.Json.Order
import SchemaToGo.Generate
set_option autoImplicit false

/-!
# The order of members in schemas

Schemas are read member by member, and the members of an object may be read in any order: different
keywords have different places, and what stands under names is kept by name.  So the order of
members leaves no trace in a schema, wherever the object stands and whichever way it is read, and
none in what is generated.
-/

namespace SchemaToGo

theorem Entries.insert_comm_of_lt {α : Type} {j k : String} (h : j < k) (v w : α)
    (es : Entries α) : insert j v (insert k w es) = insert k w (insert j v es) := by
  have hkj : ¬k < j := String.lt_asymm h
  induction es with
  | nil => simp only [insert, if_pos h, if_neg hkj]
  | cons e rest ih =>
    obtain ⟨i, x⟩ := e
    by_cases hki : k < i
    · simp only [insert, if_pos hki, if_pos (String.lt_trans h hki), if_pos h, if_neg hkj]
    by_cases hik : i < k
    · by_cases hji : j < i
      · simp only [insert, if_pos hji, if_pos hik, if_pos h, if_neg hki, if_neg hkj]
      by_cases hij : i < j
      · simp only [insert, if_pos hij, if_pos hik, if_neg hji, if_neg hki, ih]
      · simp only [insert, if_neg hij, if_pos hik, if_neg hji, if_neg hki, if_pos h, if_neg hkj]
    · have hi : i = k := String.le_antisymm (String.not_lt.mp hki) (String.not_lt.mp hik)
      subst hi
      simp only [insert, if_neg hki, if_pos h, if_neg hkj]

/-- Two names get the same values whichever is inserted first. -/
theorem Entries.insert_comm {α : Type} {j k : String} (h : j ≠ k) (v w : α) (es : Entries α) :
    insert j v (insert k w es) = insert k w (insert j v es) := by
  by_cases hjk : j < k
  · exact insert_comm_of_lt hjk v w es
  · have hkj : k < j := by
      refine Decidable.byContradiction fun hkj => h ?_
      exact String.le_antisymm (String.not_lt.mp hkj) (String.not_lt.mp hjk)
    exact (insert_comm_of_lt hkj w v es).symm

namespace Schema

open Json Json.Reader

/-! ## Members in any order -/

variable {σ κ : Type} {parts : Parts (ReaderT σ Option)}

/-- Keywords have places of their own. -/
theorem Keyword.assign_comm {j k : Keyword} (h : j ≠ k) (s : Schema) (v w : σ) :
    (j.assign parts s v).bind (fun s => k.assign parts s w) =
      (k.assign parts s w).bind fun s => j.assign parts s v := by
  cases j <;> cases k <;> first
    | exact absurd rfl h
    | (simp only [Keyword.assign, bind, ReaderT.bind, pure, ReaderT.pure, Option.bind_some,
        Option.bind_assoc]
       exact Option.bind_comm _ _)

/-- A member put in its place, if it is one of a keyword. -/
def placeMember? (parts : Parts (ReaderT σ Option)) (s : Schema) (name : String) (v : σ) :
    Option Schema :=
  match Keyword.ofName? name with
  | none => some s
  | some k => k.assign parts s v

theorem placeMember?_comm (s : Schema) (name : String) (v : σ) (name' : String) (v' : σ)
    (h : name ≠ name') :
    (placeMember? parts s name v).bind (fun s => placeMember? parts s name' v') =
      (placeMember? parts s name' v').bind fun s => placeMember? parts s name v := by
  unfold placeMember?
  cases hk : Keyword.ofName? name with
  | none => exact (Option.bind_fun_some _).symm
  | some k =>
    cases hk' : Keyword.ofName? name' with
    | none => exact Option.bind_fun_some _
    | some k' =>
      refine Keyword.assign_comm (fun heq => h ?_) s v v'
      rw [← Keyword.ofName?_eq_some_iff.mp hk, ← Keyword.ofName?_eq_some_iff.mp hk', heq]

/-- Where no key occurs twice, no keyword is repeated. -/
theorem foldMembers?_assignMember? {key? : κ → Option String} {ms : List (κ × σ)}
    (hkeys : (ms.filterMap fun m => key? m.1).Nodup) {seen : List Keyword}
    (hseen : ∀ k ∈ seen, ∀ m ∈ ms, key? m.1 ≠ some k.name) (s : Schema) :
    (foldMembers? key? (assignMember? parts) (s, seen) ms).map Prod.fst =
      foldMembers? key? (placeMember? parts) s ms := by
  induction ms generalizing seen s with
  | nil => rfl
  | cons m ms ih =>
    simp only [foldMembers?, List.foldlM_cons] at ih ⊢
    cases hkey : key? m.1 with
    | none => rfl
    | some name =>
      simp only [List.filterMap_cons, hkey, List.nodup_cons] at hkeys
      have hothers : ∀ m ∈ ms, key? m.1 ≠ some name := fun m hm heq =>
        hkeys.1 (List.mem_filterMap.mpr ⟨m, hm, heq⟩)
      have hseen' : ∀ k ∈ seen, ∀ m ∈ ms, key? m.1 ≠ some k.name := fun k hk m hm =>
        hseen k hk m (List.mem_cons_of_mem _ hm)
      dsimp only [Option.bind_some, assignMember?, placeMember?]
      cases hname : Keyword.ofName? name with
      | none => exact ih hkeys.2 hseen' s
      | some k =>
        have hk : k.name = name := Keyword.ofName?_eq_some_iff.mp hname
        dsimp only
        have hnew : k ∉ seen := fun hmem => hseen k hmem m List.mem_cons_self (hk ▸ hkey)
        rw [if_neg hnew]
        cases k.assign parts s m.2 with
        | none => rfl
        | some s' =>
          refine ih hkeys.2 (fun k' hk' => ?_) s'
          rcases List.mem_cons.mp hk' with rfl | hk'
          · rw [hk]
            exact hothers
          · exact hseen' k' hk'

theorem assignMembers_perm {key? : κ → Option String} {ms ns : List (κ × σ)}
    (hkeys : (ms.filterMap fun m => key? m.1).Nodup) (h : ms.Perm ns) :
    (foldMembers? key? (assignMember? parts) (empty, []) ms).map Prod.fst =
      (foldMembers? key? (assignMember? parts) (empty, []) ns).map Prod.fst := by
  have hseen : ∀ ms : List (κ × σ), ∀ k ∈ ([] : List Keyword), ∀ m ∈ ms,
      key? m.1 ≠ some k.name := fun _ k hk => absurd hk List.not_mem_nil
  rw [foldMembers?_assignMember? hkeys (hseen ms),
    foldMembers?_assignMember? ((h.filterMap _).nodup_iff.mp hkeys) (hseen ns)]
  exact foldMembers?_perm placeMember?_comm hkeys h empty

theorem insertMembers_perm {f : σ → Option Schema} {key? : κ → Option String} {ms ns : List (κ × σ)}
    (hkeys : (ms.filterMap fun m => key? m.1).Nodup) (h : ms.Perm ns) :
    foldMembers? key? (fun es key v => (f v).map fun s => Entries.insert key s es) [] ms =
      foldMembers? key? (fun es key v => (f v).map fun s => Entries.insert key s es) [] ns := by
  refine foldMembers?_perm (fun es key v key' v' hne => ?_) hkeys h []
  cases f v with
  | none => exact (Option.bind_fun_none _).symm
  | some s =>
    cases f v' with
    | none => rfl
    | some s' => exact congrArg some (Entries.insert_comm hne.symm s' s es)

/-! ## One member or element that changes -/

/-- Keywords take the same from everything that is related. -/
structure PartsRespect (R : σ → σ → Prop) (parts : Parts (ReaderT σ Option)) : Prop where
  text : Respects R parts.text
  type : Respects R parts.type
  named : Respects R parts.named
  names : Respects R parts.names
  items : Respects R parts.items
  values : Respects R parts.values
  list : Respects R parts.list

theorem assign_respects {R : σ → σ → Prop} (h : PartsRespect R parts) (k : Keyword) (s : Schema) :
    Respects R (k.assign parts s) := by
  intro v w hvw
  cases k with
  | ref | title | description => exact congrArg (Option.bind · _) (h.text hvw)
  | type => exact congrArg (Option.bind · _) (h.type hvw)
  | properties | definitions | defs => exact congrArg (Option.bind · _) (h.named hvw)
  | required => exact congrArg (Option.bind · _) (h.names hvw)
  | items => exact congrArg (Option.bind · _) (h.items hvw)
  | additionalProperties => exact congrArg (Option.bind · _) (h.values hvw)
  | allOf | anyOf | oneOf => exact congrArg (Option.bind · _) (h.list hvw)

theorem assignMember?_respects {R : σ → σ → Prop} (h : PartsRespect R parts)
    (state : Schema × List Keyword) (name : String) :
    Respects R (assignMember? parts state name) := by
  intro v w hvw
  unfold assignMember?
  cases Keyword.ofName? name with
  | none => rfl
  | some k =>
    dsimp only
    rw [assign_respects h k state.1 hvw]

theorem assignElements?_middle {R : σ → σ → Prop} (h : PartsRespect R parts) {v w : σ} (hvw : R v w)
    (before after : List σ) (keywords : List Keyword) (s : Schema) :
    assignElements? parts (before ++ v :: after) keywords s =
      assignElements? parts (before ++ w :: after) keywords s := by
  induction before generalizing keywords s with
  | nil =>
    cases keywords with
    | nil => rfl
    | cons k keywords =>
      show (k.assign parts s v).bind _ = (k.assign parts s w).bind _
      rw [assign_respects h k s hvw]
  | cons x before ih =>
    cases keywords with
    | nil => rfl
    | cons k keywords =>
      show (k.assign parts s x).bind _ = (k.assign parts s x).bind _
      exact congrArg _ (funext fun s => ih keywords s)

section

variable {array : List σ → σ} {object : List (κ × σ) → σ} {key? : κ → Option String}

/-- A list of what does not depend on the order. -/
theorem list_respects {α : Type} {f : σ → Option α}
    (hf : Respects (ReorderedBy array object key?) f) {g : σ → Option (List α)}
    (harray : ∀ vs, g (array vs) = vs.mapM f) (hobject : ∀ ms, g (object ms) = none) :
    Respects (ReorderedBy array object key?) g := by
  refine respects_reorderedBy (fun ms ns _ _ => ?_) (fun before after v w hvw => ?_)
    fun before after key v w _ => ?_
  · rw [hobject, hobject]
  · rw [harray, harray, mapM_middle (hf hvw)]
  · rw [hobject, hobject]

/-- Schemas by name, if the schemas do not depend on the order. -/
theorem named_respects {schema? : σ → Option Schema}
    (hschema : Respects (ReorderedBy array object key?) schema?)
    {f : σ → Option (List (String × Schema))} (harray : ∀ vs, f (array vs) = none)
    (hobject : ∀ ms, f (object ms) =
      foldMembers? key? (fun es key v => (schema? v).map fun s => Entries.insert key s es) [] ms) :
    Respects (ReorderedBy array object key?) f := by
  refine respects_reorderedBy (fun ms ns hkeys hperm => ?_) (fun before after v w _ => ?_)
    fun before after key v w hvw => ?_
  · rw [hobject, hobject]
    exact insertMembers_perm hkeys hperm
  · rw [harray, harray]
  · rw [hobject, hobject]
    exact foldMembers?_middle (fun es key => by rw [hschema hvw]) before after key []

/-- A schema, if what its keywords take does not depend on the order. -/
theorem schema_respects (h : PartsRespect (ReorderedBy array object key?) parts)
    {f : σ → Option Schema}
    (harray : ∀ vs, f (array vs) = assignElements? parts vs Keyword.all empty)
    (hobject : ∀ ms, f (object ms) =
      (foldMembers? key? (assignMember? parts) (empty, []) ms).map Prod.fst) :
    Respects (ReorderedBy array object key?) f := by
  refine respects_reorderedBy (fun ms ns hkeys hperm => ?_) (fun before after v w hvw => ?_)
    fun before after key v w hvw => ?_
  · rw [hobject, hobject]
    exact assignMembers_perm hkeys hperm
  · rw [harray, harray]
    exact assignElements?_middle h hvw before after Keyword.all empty
  · rw [hobject, hobject]
    exact congrArg _ (foldMembers?_middle
      (fun state name => assignMember?_respects h state name hvw) before after key (empty, []))

end

/-! ## Values -/

theorem absentIfNull_respects {α : Type} {f : Value → Option α} (h : Respects Value.Reordered f) :
    Respects Value.Reordered (absentIfNull f) :=
  h.map (Option.map some) (fun _ => rfl) fun _ => rfl

theorem textOfValue?_respects : Respects Value.Reordered textOfValue? :=
  respects_of_const (fun _ => rfl) fun _ => rfl

theorem textsOfValue?_respects : Respects Value.Reordered textsOfValue? :=
  list_respects textOfValue?_respects (fun _ => rfl) fun _ => rfl

theorem typeNames_respects : Respects Value.Reordered TypeNames.ofValue? :=
  textsOfValue?_respects.map (Option.map TypeNames.multiple) (fun _ => rfl) fun _ => rfl

section

variable {schema? : Value → Option Schema} (h : Respects Value.Reordered schema?)
include h

theorem namedOfValue?_respects : Respects Value.Reordered (namedOfValue? schema?) := by
  refine named_respects h (fun _ => rfl) fun ms => ?_
  simp only [Option.map_eq_bind]
  rfl

theorem elements_respects : Respects Value.Reordered (Elements.ofValue? schema?) := by
  refine respects_reorderedBy (fun ms ns hkeys hperm => ?_) (fun before after v w hvw => ?_)
    fun before after key v w hvw => ?_
  · exact congrArg (Option.map Elements.uniform) (h (.members hkeys hperm))
  · show ((List.mapM schema? _).map _).or ((schema? _).map _) =
      ((List.mapM schema? _).map _).or ((schema? _).map _)
    rw [mapM_middle (h hvw) before after, h (.element before after hvw)]
  · exact congrArg (Option.map Elements.uniform) (h (.member before after key hvw))

theorem otherValues_respects : Respects Value.Reordered (OtherValues.ofValue? schema?) :=
  h.map (Option.map OtherValues.schema) (fun _ => rfl) fun _ => rfl

theorem partsOfValue_respects : PartsRespect Value.Reordered (partsOfValue schema?) where
  text := absentIfNull_respects textOfValue?_respects
  type := absentIfNull_respects typeNames_respects
  named := absentIfNull_respects (namedOfValue?_respects h)
  names := absentIfNull_respects textsOfValue?_respects
  items := absentIfNull_respects (elements_respects h)
  values := absentIfNull_respects (otherValues_respects h)
  list := absentIfNull_respects (list_respects h (fun _ => rfl) fun _ => rfl)

end

theorem ofMembers?_eq (parts : Parts (ReaderT Value Option)) (ms : List (String × Value))
    (seen : List Keyword) (s : Schema) :
    ofMembers? parts ms seen s =
      (foldMembers? some (assignMember? parts) (s, seen) ms).map Prod.fst := by
  induction ms generalizing seen s with
  | nil => rfl
  | cons m ms ih =>
    obtain ⟨name, v⟩ := m
    simp only [foldMembers?, List.foldlM_cons] at ih ⊢
    dsimp only [Option.bind_some, ofMembers?, assignMember?]
    cases Keyword.ofName? name with
    | none => exact ih seen s
    | some k =>
      dsimp only
      split
      · rfl
      · show (k.assign parts s v).bind _ = _
        cases k.assign parts s v with
        | none => rfl
        | some s' => exact ih (k :: seen) s'

theorem ofElements?_eq (parts : Parts (ReaderT Value Option)) (vs : List Value)
    (keywords : List Keyword) (s : Schema) :
    ofElements? parts vs keywords s = assignElements? parts vs keywords s := by
  induction vs generalizing keywords s with
  | nil => rfl
  | cons v vs ih =>
    cases keywords with
    | nil => rfl
    | cons k keywords => exact congrArg _ (funext fun s => ih keywords s)

theorem ofNestedValue?_respects (depth : Nat) :
    Respects Value.Reordered (ofNestedValue? depth) := by
  induction depth with
  | zero => exact fun _ _ _ => rfl
  | succ depth ih =>
    exact schema_respects (partsOfValue_respects ih)
      (fun vs => ofElements?_eq _ vs Keyword.all empty) fun ms => ofMembers?_eq _ ms [] empty

theorem membersNesting_perm {ms ns : List (String × Value)} (h : ms.Perm ns) :
    Value.membersNesting ms = Value.membersNesting ns := by
  induction h with
  | nil => rfl
  | cons m _ ih => simp only [Value.membersNesting, ih]
  | swap m m' ms => simp only [Value.membersNesting, Nat.max_left_comm]
  | trans _ _ ih ih' => exact ih.trans ih'

theorem nesting_respects : Respects Value.Reordered Value.nesting := by
  intro v w h
  induction h with
  | refl => rfl
  | trans _ _ ih ih' => exact ih.trans ih'
  | members _ h => exact congrArg (1 + ·) (membersNesting_perm h)
  | element before after _ ih =>
    refine congrArg (1 + ·) ?_
    induction before with
    | nil => simp only [List.nil_append, Value.elementsNesting, ih]
    | cons x before ih => simp only [List.cons_append, Value.elementsNesting, ih]
  | member before after key _ ih =>
    refine congrArg (1 + ·) ?_
    induction before with
    | nil => simp only [List.nil_append, Value.membersNesting, ih]
    | cons m before ih => simp only [List.cons_append, Value.membersNesting, ih]

theorem ofValue?_respects : Respects Value.Reordered ofValue? := by
  intro v w h
  unfold ofValue?
  rw [nesting_respects h]
  exact ofNestedValue?_respects _ h

/-! ## Trees -/

theorem unlessNull?_respects {α : Type} {f : Tree → Option α} (h : Respects Tree.Reordered f) :
    Respects Tree.Reordered (Tree.unlessNull? f) :=
  h.map (Option.map some) (fun _ => rfl) fun _ => rfl

theorem text?_respects : Respects Tree.Reordered Tree.text? :=
  respects_of_const (fun _ => rfl) fun _ => rfl

theorem list?_respects {α : Type} {f : Option (Tree → Option α)}
    (h : ∀ g ∈ f, Respects Tree.Reordered g) : Respects Tree.Reordered (Tree.list? f) := by
  cases f with
  | none => exact respects_of_const (fun _ => rfl) fun _ => rfl
  | some g => exact list_respects (h g rfl) (fun _ => rfl) fun _ => rfl

theorem namedOfTree?_respects {f : Option (Tree → Option Schema)}
    (h : ∀ g ∈ f, Respects Tree.Reordered g) : Respects Tree.Reordered (namedOfTree? f) := by
  cases f with
  | none => exact respects_of_const (fun _ => rfl) fun _ => rfl
  | some g => exact named_respects (h g rfl) (fun _ => rfl) fun _ => rfl

/-- What is taken from the value of a tree. -/
theorem valueOf_respects {α : Type} {f : Value → Option α} (h : Respects Value.Reordered f)
    (room : Nat) : Respects Tree.Reordered fun t => (t.value? room).bind f := by
  intro t u htu
  have hvalue := value?_reordered htu room
  dsimp only
  generalize t.value? room = x, u.value? room = y at hvalue
  cases hvalue with
  | none => rfl
  | some hvw => exact h hvw

theorem partsOfTree_respects (room : Nat) {f : Option (Tree → Option Schema)}
    (h : ∀ g ∈ f, Respects Tree.Reordered g) :
    PartsRespect Tree.Reordered (partsOfTree room f) where
  text := unlessNull?_respects text?_respects
  type := unlessNull?_respects (valueOf_respects typeNames_respects room)
  named := unlessNull?_respects (namedOfTree?_respects h)
  names := by
    refine unlessNull?_respects (list?_respects fun g hg => ?_)
    split at hg
    · cases hg
    · exact Option.some.inj hg ▸ text?_respects
  items := unlessNull?_respects (valueOf_respects (elements_respects ofValue?_respects) room)
  values := unlessNull?_respects (valueOf_respects (otherValues_respects ofValue?_respects) room)
  list := unlessNull?_respects (list?_respects h)

theorem ofTreeWith?_respects {f : Option (Parts (ReaderT Tree Option))}
    (h : ∀ parts ∈ f, PartsRespect Tree.Reordered parts) :
    Respects Tree.Reordered (ofTreeWith? f) := by
  cases f with
  | none => exact respects_of_const (fun _ => rfl) fun _ => rfl
  | some parts => exact schema_respects (h parts rfl) (fun _ => rfl) fun _ => rfl

/-- The order of members leaves no trace in the schema of a tree. -/
theorem ofTree?_respects : ∀ room, Respects Tree.Reordered (ofTree? room)
  | 0 => ofTreeWith?_respects nofun
  | 1 => ofTreeWith?_respects fun _ hparts =>
      Option.some.inj hparts ▸ partsOfTree_respects 0 nofun
  | room + 2 => ofTreeWith?_respects fun _ hparts =>
      Option.some.inj hparts ▸ partsOfTree_respects (room + 1) fun _ hg =>
        Option.some.inj hg ▸ ofTree?_respects room

end Schema

/-! ## Texts -/

open Json in
/-- Texts of reordered trees are parsed as the same schema, whatever they are called. -/
theorem Schema.parse_reordered {t u : Tree} {text text' : String}
    (ht : IsText t (Utf8.encode text)) (hu : IsText u (Utf8.encode text')) (h : t.Reordered u)
    (name name' : String) (s : Schema) :
    Schema.parse name text = .ok s ↔ Schema.parse name' text' = .ok s := by
  rw [parse_eq_ok_iff ht, parse_eq_ok_iff hu, ofTree?_respects nestingLimit h]

/-- Sources have the same documents with one source for another that has the same document. -/
theorem mapM_document_middle {a b : Source}
    (h : ∀ d, a.document = .ok d ↔ b.document = .ok d) (before after : List Source)
    (documents : List Document) :
    (before ++ a :: after).mapM Source.document = .ok documents ↔
      (before ++ b :: after).mapM Source.document = .ok documents := by
  simp only [List.mapM_append, List.mapM_cons]
  cases ha : a.document with
  | ok d => rw [(h d).mp ha]
  | error e =>
    cases hb : b.document with
    | ok d => rw [(h d).mpr hb] at ha; cases ha
    | error e' =>
      cases before.mapM Source.document with
      | error e => exact ⟨nofun, nofun⟩
      | ok front => exact ⟨nofun, nofun⟩

/-- Sources matter to what is generated by their documents. -/
theorem generate_eq_ok_iff {sources : List Source} {settings : Settings} {out : String} :
    generate sources settings = .ok out ↔
      ∃ documents, sources.mapM Source.document = .ok documents ∧
        ((Declarations.ofDocuments documents).mapError GenerateError.build >>= fun d =>
          (Go.render d settings.package).mapError .render) = .ok out := by
  unfold generate declarationsOf
  cases sources.mapM Source.document with
  | error e => exact ⟨nofun, fun ⟨_, h, _⟩ => nomatch h⟩
  | ok documents =>
    constructor
    · exact fun h => ⟨documents, rfl, h⟩
    · rintro ⟨_, ⟨⟩, h⟩
      exact h

open Json in
/-- Two JSON texts of one value, up to the order of members within objects, are schemas only
together, and the same one.  So one may stand for the other among the sources of a file. -/
theorem generate_reordered {t u : Tree} {text text' : String}
    (ht : IsText t (Utf8.encode text)) (hu : IsText u (Utf8.encode text')) (h : t.Reordered u) :
    (∀ name name' s, Schema.parse name text = .ok s ↔ Schema.parse name' text' = .ok s) ∧
      ∀ before name after settings out,
        generate (before ++ ⟨name, text⟩ :: after) settings = .ok out ↔
          generate (before ++ ⟨name, text'⟩ :: after) settings = .ok out := by
  have hparse := Schema.parse_reordered ht hu h
  refine ⟨hparse, fun before name after settings out => ?_⟩
  have hdocument : ∀ d, (⟨name, text⟩ : Source).document = .ok d ↔
      (⟨name, text'⟩ : Source).document = .ok d := by
    intro d
    have hs := hparse name name
    unfold Source.document
    dsimp only
    cases hx : Schema.parse name text with
    | ok s => rw [(hs s).mp hx]
    | error e =>
      cases hy : Schema.parse name text' with
      | ok s => rw [(hs s).mpr hy] at hx; cases hx
      | error e' => exact ⟨nofun, nofun⟩
  simp only [generate_eq_ok_iff, mapM_document_middle hdocument]

/-- A text of a schema with two keywords. -/
def titleFirst : String := "\x7b\"title\":\"A\",\"type\":\"object\"\x7d"

/-- The same schema with its keywords the other way round, and with blanks. -/
def typeFirst : String := "\x7b \"type\" : \"object\", \"title\" : \"A\" \x7d\n"

section

open Json

/-- A member whose key and value are words. -/
def wordMember (key value : String) : Option String × Tree :=
  (decodeLiteral? (quoted (asciiBytes key)),
    .string (decodeLiteral? (quoted (asciiBytes value))))

theorem memberText_wordMember {key value : String}
    (hkey : (asciiBytes key).all Reader.isPlain = true)
    (hvalue : (asciiBytes value).all Reader.isPlain = true) {blanks blanks' : List UInt8}
    (h : Blanks blanks) (h' : Blanks blanks') :
    MemberText ValueText (wordMember key value) (quoted (asciiBytes key) ++
      (blanks ++ Byte.colon :: (blanks' ++ quoted (asciiBytes value)))) :=
  .mk (.quoted (.of_plain (List.all_eq_true.mp hkey))) h h'
    (.string (.quoted (.of_plain (List.all_eq_true.mp hvalue))))

theorem generate_reordered_words : ∃ t u : Tree,
    IsText t (Utf8.encode titleFirst) ∧ IsText u (Utf8.encode typeFirst) ∧ t.Reordered u ∧
      (generate [⟨"schema.json", titleFirst⟩] {}).isOk ∧
        ∀ out, generate [⟨"schema.json", titleFirst⟩] {} = .ok out ↔
          generate [⟨"schema.json", typeFirst⟩] {} = .ok out := by
  have htitle : ∀ {bs bs' : List UInt8}, Blanks bs → Blanks bs' → _ :=
    @memberText_wordMember "title" "A" (by decide +kernel) (by decide +kernel)
  have htype : ∀ {bs bs' : List UInt8}, Blanks bs → Blanks bs' → _ :=
    @memberText_wordMember "type" "object" (by decide +kernel) (by decide +kernel)
  let t := Tree.object [wordMember "title" "A", wordMember "type" "object"]
  let u := Tree.object [wordMember "type" "object", wordMember "title" "A"]
  have hblank : Blanks [0x20] := by decide
  have hbreak : Blanks [0x0A] := by decide
  have ht : IsText t (Utf8.encode titleFirst) := by
    have h := IsText.mk .nil (.object (.cons .nil (htitle .nil .nil)
      (.cons .nil .nil (htype .nil .nil) (.nil .nil)))) .nil
    refine Eq.mp (congrArg (IsText t) ?_) h
    decide +kernel
  have hu : IsText u (Utf8.encode typeFirst) := by
    have h := IsText.mk .nil (.object (.cons hblank (htype hblank hblank)
      (.cons .nil hblank (htitle hblank hblank) (.nil hblank)))) hbreak
    refine Eq.mp (congrArg (IsText u) ?_) h
    decide +kernel
  have h : t.Reordered u := .members (by decide +kernel) (.swap _ _ _)
  refine ⟨t, u, ht, hu, h, by decide +kernel, fun out => ?_⟩
  exact (generate_reordered ht hu h).2 [] "schema.json" [] {} out

end

end SchemaToGo
