import SchemaToGo.Proofs.Schema.Nullable
import SchemaToGo.Workshop.Build
import Mathlib.Data.List.Forall2
set_option autoImplicit false

/-!
# Declarations up to `null`

Whether `null` is among the types of schemas makes no difference to the declarations, nor to the
error if there are none.  Every step of the work does on stripped schemas what it does on the
schemas themselves: what it hands on is stripped, and what it declares, reserves and complains of
is the same.

Normative source: SPEC_FULL.md section 10, the row on `null` beside another type.
-/

namespace SchemaToGo

/-- A fold whose steps hand on what `f` makes of the results hands on what `f` makes of the last. -/
theorem foldlM_hom {m : Type → Type} [Monad m] [LawfulMonad m] {α β : Type} {γ δ : Type}
    {f : α → β} {g : γ → δ} {step : α → γ → m α} {step' : β → δ → m β}
    (h : ∀ a c, step' (f a) (g c) = f <$> step a c) (a : α) (cs : List γ) :
    (cs.map g).foldlM step' (f a) = f <$> cs.foldlM step a := by
  induction cs generalizing a with
  | nil => rw [List.map_nil, List.foldlM_nil, List.foldlM_nil, map_pure]
  | cons c cs ih =>
    rw [List.map_cons, List.foldlM_cons, List.foldlM_cons, h, bind_map_left, map_bind]
    exact bind_congr fun a => ih a

/-- Doing steps for what `f` makes of some things is doing the same steps for the things. -/
theorem forM_hom {m : Type → Type} [Monad m] {γ δ : Type} {g : γ → δ} {step : γ → m PUnit}
    {step' : δ → m PUnit} (h : ∀ c, step' (g c) = step c) (cs : List γ) :
    (cs.map g).forM step' = cs.forM step := by
  induction cs with
  | nil => rfl
  | cons c cs ih =>
    show (step' (g c) >>= fun _ => (cs.map g).forM step') = step c >>= fun _ => cs.forM step
    rw [h, ih]

namespace Dict

variable {α β : Type}

/-- What `f` makes of the values of a dictionary. -/
def map (f : α → β) (d : Dict α) : Dict β where
  entries := d.entries.map (Prod.map id f)
  ascending := List.pairwise_map.mpr d.ascending

theorem find?_map (f : α → β) (d : Dict α) (k : String) :
    (d.map f).find? k = (d.find? k).map f := by
  show Entries.find? k (d.entries.map (Prod.map id f)) = (Entries.find? k d.entries).map f
  induction d.entries with
  | nil => rfl
  | cons e rest ih =>
    obtain ⟨k', v⟩ := e
    show (if k' = k then some (f v) else _) = Option.map f (if k' = k then some v else _)
    by_cases hk : k' = k
    · rw [if_pos hk, if_pos hk, Option.map_some]
    · rw [if_neg hk, if_neg hk, ih]

theorem contains_map (f : α → β) (d : Dict α) (k : String) :
    (d.map f).contains k = d.contains k := by
  unfold contains
  rw [find?_map, Option.isSome_map]

theorem insert_map (f : α → β) (d : Dict α) (k : String) (v : α) :
    (d.map f).insert k (f v) = (d.insert k v).map f := by
  refine Dict.ext ?_
  show Entries.insert k (f v) (d.entries.map (Prod.map id f)) =
    (Entries.insert k v d.entries).map (Prod.map id f)
  induction d.entries with
  | nil => rfl
  | cons e rest ih =>
    obtain ⟨k', v'⟩ := e
    show (if k < k' then _ else if k' < k then _ else _) =
      List.map (Prod.map id f) (if k < k' then _ else if k' < k then _ else _)
    by_cases hlt : k < k'
    · rw [if_pos hlt, if_pos hlt]
      rfl
    by_cases hgt : k' < k
    · rw [if_neg hlt, if_pos hgt, if_neg hlt, if_pos hgt, List.map_cons, ← ih]
      rfl
    · rw [if_neg hlt, if_neg hgt, if_neg hlt, if_neg hgt]
      rfl

theorem values_map (f : α → β) (d : Dict α) : (d.map f).values = d.values.map f := by
  show (d.entries.map (Prod.map id f)).map Prod.snd = (d.entries.map Prod.snd).map f
  rw [List.map_map, List.map_map]
  rfl

end Dict

/-! ## Stripped documents -/

/-- The same place of the stripped document. -/
def Place.stripNull (p : Place) : Place := ⟨p.schema.stripNull, p.path⟩

/-- The same target of the stripped document. -/
def Target.stripNull (t : Target) : Target := ⟨t.name, t.place.stripNull⟩

/-- The document without `null` among the types. -/
def Document.stripNull (d : Document) : Document := ⟨d.name, d.schema.stripNull⟩

/-- The scope of the stripped document. -/
def Scope.stripNull (scope : Scope) : Scope :=
  ⟨scope.document.stripNull, scope.targets.map Target.stripNull⟩

/-- The members of the stripped document. -/
def Members.stripNull (ms : Members) : Members :=
  { ms with properties := ms.properties.map Place.stripNull }

theorem Place.schema_stripNull (p : Place) : p.stripNull.schema = p.schema.stripNull := rfl

theorem Place.properties_stripNull (p : Place) :
    p.stripNull.properties = p.properties.map (Prod.map id Place.stripNull) := by
  show (p.schema.stripNull.properties.getD []).map _ = _
  rw [Schema.stripNull_eq]
  dsimp only
  rw [Schema.getD_stripEntries]
  unfold properties
  rw [List.map_map, List.map_map]
  rfl

theorem Place.allOfParts_stripNull (p : Place) :
    p.stripNull.allOfParts = p.allOfParts.map Place.stripNull := by
  have hparts : p.schema.stripNull.allOf.getD [] =
      (p.schema.allOf.getD []).map Schema.stripNull := by
    rw [Schema.stripNull_eq]
    exact Option.getD_map (List.map Schema.stripNull) [] p.schema.allOf
  unfold allOfParts stripNull
  rw [hparts, List.zipIdx_map, List.map_map, List.map_map]
  rfl

theorem Target.isStruct_stripNull (t : Target) : t.stripNull.isStruct = t.isStruct :=
  Schema.describesObject_stripNull t.place.schema

theorem Document.walkBound_stripNull (d : Document) : d.stripNull.walkBound = d.walkBound := by
  show (d.schema.stripNull.size + 2) * (d.schema.stripNull.size + 2) = _
  rw [Schema.size_stripNull]
  rfl

namespace Scope

variable (scope : Scope)

theorem target_stripNull (reference : String) :
    scope.stripNull.target reference = (scope.target reference).map Target.stripNull := by
  have hfind (pointer : String) : scope.stripNull.targets.find? pointer =
      (scope.targets.find? pointer).map Target.stripNull := Dict.find?_map _ _ _
  unfold target
  split
  · next fragment _ =>
    dsimp only
    cases Pointer.segments? (String.ofList fragment) with
    | none => rfl
    | some steps =>
      simp only [Option.bind_eq_bind, Option.bind_some, hfind]
      cases scope.targets.find? (Pointer.ofSegments steps) with
      | none => rfl
      | some t => rfl
  · rfl

theorem follow_stripNull (place : Place) (reference : String) :
    scope.stripNull.follow place.stripNull reference =
      Target.stripNull <$> scope.follow place reference := by
  unfold follow
  rw [target_stripNull]
  cases scope.target reference with
  | error complaint => rfl
  | ok t => rfl

end Scope

/-! ## Members -/

namespace Members

theorem addProperty_stripNull (ms : Members) (e : String × Place) :
    ms.stripNull.addProperty (e.1, e.2.stripNull) = (ms.addProperty e).stripNull := by
  unfold addProperty
  rw [show ms.stripNull.properties.contains e.1 = ms.properties.contains e.1 from
    Dict.contains_map _ _ _]
  split
  · rfl
  · show Members.mk ((ms.properties.map Place.stripNull).insert e.1 e.2.stripNull) _ _ = _
    rw [Dict.insert_map]
    rfl

theorem addOwn_stripNull (ms : Members) (place : Place) :
    ms.stripNull.addOwn place.stripNull = (ms.addOwn place).stripNull := by
  have hfold : (place.stripNull.properties).foldl addProperty ms.stripNull =
      (place.properties.foldl addProperty ms).stripNull := by
    rw [Place.properties_stripNull, List.foldl_map]
    exact List.foldl_hom stripNull fun ms e => addProperty_stripNull ms e
  unfold addOwn
  rw [hfold, Place.schema_stripNull, Schema.required_stripNull]
  rfl

/-- A walk through stripped schemas finds the stripped members. -/
theorem collect_stripNull (scope : Scope) (bound : Nat) (place : Place) (ms : Members) :
    collect scope.stripNull bound place.stripNull ms.stripNull =
      stripNull <$> collect scope bound place ms := by
  induction bound generalizing place ms with
  | zero => rfl
  | succ bound ih =>
    have hparts (ms : Members) : place.stripNull.allOfParts.foldlM
          (fun ms part => collect scope.stripNull bound part ms) ms.stripNull =
        stripNull <$> place.allOfParts.foldlM (fun ms part => collect scope bound part ms) ms := by
      rw [Place.allOfParts_stripNull]
      exact foldlM_hom (fun ms part => ih part ms) ms _
    rw [collect, collect, addOwn_stripNull, Place.schema_stripNull, Schema.ref_stripNull]
    dsimp only
    cases place.schema.ref with
    | none => exact hparts _
    | some reference =>
      dsimp only
      rw [Scope.follow_stripNull]
      cases scope.follow place reference with
      | error e => rfl
      | ok target =>
        show (if target.place.path ∈ (ms.addOwn place).followed then
              (_ : Except BuildError Members) else _) =
            stripNull <$> if target.place.path ∈ (ms.addOwn place).followed then
              (_ : Except BuildError Members) else _
        by_cases hfollowed : target.place.path ∈ (ms.addOwn place).followed
        · rw [if_pos hfollowed, if_pos hfollowed]
          exact hparts _
        · have hcollect := ih target.place
            { ms.addOwn place with followed := target.place.path :: (ms.addOwn place).followed }
          rw [if_neg hfollowed, if_neg hfollowed, map_bind]
          change (collect scope.stripNull bound target.place.stripNull
            (stripNull { ms.addOwn place with
              followed := target.place.path :: (ms.addOwn place).followed }) >>= _) = _
          rw [hcollect, bind_map_left]
          exact bind_congr hparts

theorem ofPlace_stripNull (scope : Scope) (place : Place) :
    ofPlace scope.stripNull place.stripNull = stripNull <$> ofPlace scope place := by
  unfold ofPlace
  rw [show scope.stripNull.document.walkBound = scope.document.walkBound from
    Document.walkBound_stripNull _]
  exact collect_stripNull scope _ place empty

end Members

/-! ## Types -/

namespace Work

variable (scope : Scope)

theorem targetType_stripNull (t : Target) : targetType t.stripNull = targetType t := by
  unfold targetType
  rw [Target.isStruct_stripNull]
  rfl

theorem complain_stripNull (path : Path) (complaint : Complaint) :
    scope.stripNull.complain path complaint = scope.complain path complaint := rfl

section

variable {resolve resolve' : Resolver}
  (hresolve : ∀ place context, resolve' (Place.stripNull place) context = resolve place context)
include hresolve

theorem addField_stripNull (required : List String) (s : Struct) (e : String × Place) :
    addField scope.stripNull resolve' required s (e.1, e.2.stripNull) =
      addField scope resolve required s e := by
  unfold addField
  dsimp only
  rw [complain_stripNull, hresolve, Place.schema_stripNull, Schema.description_stripNull]
  rfl

theorem makeStruct_stripNull (name : String) (place : Place) :
    makeStruct scope.stripNull resolve' name place.stripNull =
      makeStruct scope resolve name place := by
  have hfold (required : List String) (s : Struct) (es : List (String × Place)) :
      (es.map (Prod.map id Place.stripNull)).foldlM
          (addField scope.stripNull resolve' required) s =
        es.foldlM (addField scope resolve required) s := by
    rw [List.foldlM_map]
    congr 1
    funext s e
    exact addField_stripNull scope hresolve required s e
  unfold makeStruct
  rw [Members.ofPlace_stripNull, Place.schema_stripNull, Schema.description_stripNull]
  cases Members.ofPlace scope place with
  | error e => rfl
  | ok members =>
    exact congrArg (fun fields : Work Struct => fields >>= fun s => declare (.struct s))
      (hfold members.required _ members.properties.entries)

theorem inlineStruct_stripNull (place : Place) (context : String) :
    inlineStruct scope.stripNull resolve' place.stripNull context =
      inlineStruct scope resolve place context := by
  unfold inlineStruct
  rw [Place.schema_stripNull, Schema.title_stripNull]
  simp only [makeStruct_stripNull scope hresolve]
  rfl

theorem dictionaryType_stripNull (place : Place) (context : String) :
    dictionaryType resolve' place.stripNull context = dictionaryType resolve place context := by
  unfold dictionaryType
  rw [Place.schema_stripNull, Schema.additionalSchema?_stripNull, Schema.type_stripNull,
    Option.isSome_map]
  cases place.schema.additionalSchema? with
  | none => rfl
  | some values => exact congrArg (· >>= _) (hresolve ⟨values, _⟩ _)

theorem listType_stripNull (place : Place) (context : String) :
    listType resolve' place.stripNull context = listType resolve place context := by
  unfold listType
  rw [Place.schema_stripNull, Schema.items_stripNull]
  cases place.schema.items with
  | none => rfl
  | some elements =>
    cases elements with
    | perPlace _ => rfl
    | uniform item => exact congrArg (· >>= _) (hresolve ⟨item, _⟩ _)

theorem namedType_stripNull (place : Place) (context : String) (names : List String) :
    namedType scope.stripNull resolve' place.stripNull context names =
      namedType scope resolve place context names := by
  unfold namedType
  split
  · exact dictionaryType_stripNull hresolve place context
  · exact listType_stripNull hresolve place context
  all_goals rfl

/-- A schema and its stripped form have one type, if the schemas inside do. -/
theorem typeWith_stripNull (place : Place) (context : String) :
    typeWith scope.stripNull resolve' place.stripNull context =
      typeWith scope resolve place context := by
  unfold typeWith
  rw [Place.schema_stripNull, Schema.ref_stripNull, Schema.hasOwnMembers_stripNull,
    Schema.isSome_anyOf_stripNull, Schema.isSome_oneOf_stripNull, Schema.type_stripNull]
  cases place.schema.ref with
  | some reference =>
    dsimp only
    rw [Scope.follow_stripNull]
    cases scope.follow place reference with
    | error e => rfl
    | ok target =>
      exact congrArg (pure : GoType → Work GoType) (targetType_stripNull target)
  | none =>
    dsimp only
    split
    · exact inlineStruct_stripNull scope hresolve place context
    split
    · rfl
    cases place.schema.type with
    | none => exact dictionaryType_stripNull hresolve place context
    | some t =>
      dsimp only [Option.map_some]
      rw [TypeNames.withoutNull_stripNull]
      exact namedType_stripNull scope hresolve place context _

end

theorem typeWithin_stripNull (bound : Nat) (place : Place) (context : String) :
    typeWithin scope.stripNull bound place.stripNull context =
      typeWithin scope bound place context := by
  induction bound generalizing place context with
  | zero => rfl
  | succ bound ih => exact typeWith_stripNull scope ih place context

theorem typeOf_stripNull (place : Place) (context : String) :
    typeOf scope.stripNull place.stripNull context = typeOf scope place context := by
  unfold typeOf
  rw [show scope.stripNull.document.walkBound = scope.document.walkBound from
    Document.walkBound_stripNull _]
  exact typeWithin_stripNull scope _ place context

/-! ## Documents -/

theorem declareTarget_stripNull (t : Target) :
    declareTarget scope.stripNull t.stripNull = declareTarget scope t := by
  unfold declareTarget
  rw [Target.isStruct_stripNull]
  split
  · exact makeStruct_stripNull scope (typeOf_stripNull scope) t.name t.place
  · exact congrArg (· >>= _) (typeOf_stripNull scope t.place t.name)

theorem describesType_stripNull (s : Schema) : s.stripNull.describesType = s.describesType := by
  unfold Schema.describesType
  rw [Schema.describesObject_stripNull, Schema.type_stripNull, Option.isSome_map,
    Schema.ref_stripNull]

theorem namedPlaces_stripNull (d : Document) :
    d.stripNull.namedPlaces = d.namedPlaces.map (Prod.map Place.stripNull id) := by
  unfold Document.namedPlaces
  rw [show d.stripNull.schema = d.schema.stripNull from rfl, describesType_stripNull,
    Schema.title_stripNull, Schema.definitionList_stripNull, List.map_append, List.map_map,
    List.map_map]
  refine congr (congrArg HAppend.hAppend ?_) (List.map_congr_left fun e _ => ?_)
  · split
    · rw [List.map_singleton, Prod.map_apply, id_eq]
      rfl
    · rfl
  · rw [Function.comp_apply, Function.comp_apply, Prod.map_apply, id_eq]
    rfl

theorem addTarget_stripNull (targets : Dict Target) (e : Place × String) :
    addTarget (targets.map Target.stripNull) (Prod.map Place.stripNull id e) =
      Dict.map Target.stripNull <$> addTarget targets e := by
  unfold addTarget
  rw [map_bind]
  refine bind_congr fun name => ?_
  rw [map_pure, ← Dict.insert_map]
  rfl

theorem openScope_stripNull (d : Document) :
    openScope d.stripNull = Scope.stripNull <$> openScope d := by
  have hfold : (d.namedPlaces.map (Prod.map Place.stripNull id)).foldlM addTarget ∅ =
      Dict.map Target.stripNull <$> d.namedPlaces.foldlM addTarget ∅ :=
    foldlM_hom addTarget_stripNull ∅ d.namedPlaces
  unfold openScope
  rw [namedPlaces_stripNull, hfold, map_bind, bind_map_left]
  exact bind_congr fun targets => (map_pure _ _).symm

theorem declareDocument_stripNull (d : Document) :
    declareDocument d.stripNull = declareDocument d := by
  unfold declareDocument
  rw [openScope_stripNull, bind_map_left]
  refine bind_congr fun scope => ?_
  rw [show scope.stripNull.targets.values = _ from Dict.values_map _ _]
  exact forM_hom (declareTarget_stripNull scope) _

end Work

/-- What documents declare, or why they declare nothing, does not depend on `null`. -/
theorem ofDocuments_stripNull (documents : List Document) :
    Declarations.ofDocuments (documents.map Document.stripNull) =
      Declarations.ofDocuments documents := by
  unfold Declarations.ofDocuments Workshop.ofDocuments
  rw [forM_hom Work.declareDocument_stripNull]

/-- Exchanging types for others that are the same without `null`, at any schemas of any documents,
changes neither the declarations nor the error if there are none. -/
theorem ofDocuments_retyped {documents documents' : List Document}
    (h : List.Forall₂ (fun d d' => d.name = d'.name ∧ Schema.Retyped d.schema d'.schema) documents
      documents') :
    Declarations.ofDocuments documents = Declarations.ofDocuments documents' := by
  have hstrip : documents.map Document.stripNull = documents'.map Document.stripNull := by
    induction h with
    | nil => rfl
    | @cons d d' _ _ h _ ih =>
      have hd : d.stripNull = d'.stripNull := by
        unfold Document.stripNull
        rw [h.1, h.2.stripNull_eq]
      rw [List.map_cons, List.map_cons, hd, ih]
  rw [← ofDocuments_stripNull documents, hstrip, ofDocuments_stripNull]

/-- A property of type `string` may as well be `null`. -/
theorem ofDocuments_retyped_property :
    Declarations.ofDocuments [⟨"schema.json", { Schema.empty with
      properties := some [("a", { Schema.empty with type := some (.single "string") })] }⟩] =
    Declarations.ofDocuments [⟨"schema.json", { Schema.empty with
      properties := some [("a", { Schema.empty with
        type := some (.multiple ["null", "string"]) })] }⟩] :=
  have hproperty := @Schema.Retypes.type Schema.empty (.single "string")
    (.multiple ["null", "string"]) (by decide)
  ofDocuments_retyped (.cons ⟨rfl, .single (.properties Schema.empty [] [] "a" hproperty)⟩ .nil)

end SchemaToGo
