import SchemaToGo.Workshop.Build
set_option autoImplicit false

/-!
# Running steps of the work

What the steps of the work do to a workshop.  A step either goes on with a result or ends the work
with an error; `outcome_bind` and `outcome_bind_eq_ok` take a sequence of steps apart.

The type of a schema is found in one of six ways, which the schema alone decides: `Schema.shape`
names it, and `typeWith_eq` says what is done in each.  Later proofs follow the shape and never open
`typeWith`.
-/

namespace SchemaToGo

namespace Workshop

theorem not_mem_underWay {w : Workshop} {path : Path} (h : w.underWay.lookup path = none) :
    path ∉ w.underWay.map Prod.fst := by
  intro hmem
  obtain ⟨e, he, hpath⟩ := List.mem_map.mp hmem
  have hne := List.lookup_eq_none_iff.mp h e he
  simp [hpath] at hne

/-- Leaving a struct drops nothing but what entering it added. -/
theorem underWay_leave {w w' : Workshop} {path : Path} {name : String}
    (hnew : path ∉ w.underWay.map Prod.fst) (h : w'.underWay = (path, name) :: w.underWay) :
    (w'.leave path).underWay = w.underWay := by
  have hkeep : w.underWay.filter (fun e => decide (e.1 ≠ path)) = w.underWay := by
    rw [List.filter_eq_self]
    intro e he
    exact decide_eq_true fun heq => hnew (heq ▸ List.mem_map_of_mem he)
  show w'.underWay.filter (fun e => decide (e.1 ≠ path)) = w.underWay
  rw [h, List.filter_cons_of_neg (by simp), hkeep]

end Workshop

namespace Work

variable {α β : Type}

/-- What a step comes to, and the workshop it leaves. -/
def outcome (step : Work α) (w : Workshop) : Except BuildError α × Workshop := step w

/-! ## Sequences -/

@[simp] theorem outcome_pure (a : α) (w : Workshop) :
    outcome (pure a : Work α) w = (.ok a, w) := rfl

@[simp] theorem outcome_throw (e : BuildError) (w : Workshop) :
    outcome (throw e : Work α) w = (.error e, w) := rfl

@[simp] theorem outcome_lift (r : Except BuildError α) (w : Workshop) :
    outcome (liftM r : Work α) w = (r, w) := rfl

theorem outcome_bind (step : Work α) (next : α → Work β) (w : Workshop) :
    outcome (step >>= next) w =
      match outcome step w with
      | (.ok a, w') => outcome (next a) w'
      | (.error e, w') => (.error e, w') := by
  show ExceptT.bindCont next (step w).1 (step w).2 = _
  unfold outcome
  cases step w with
  | mk r w' => cases r <;> rfl

theorem outcome_bind_of_error {step : Work α} {w w' : Workshop} {e : BuildError}
    (h : outcome step w = (.error e, w')) (next : α → Work β) :
    outcome (step >>= next) w = (.error e, w') := by
  rw [outcome_bind, h]

/-- Two steps in sequence succeed if both do. -/
theorem outcome_bind_eq_ok {step : Work α} {next : α → Work β} {w w' : Workshop} {b : β} :
    outcome (step >>= next) w = (.ok b, w') ↔
      ∃ a w₁, outcome step w = (.ok a, w₁) ∧ outcome (next a) w₁ = (.ok b, w') := by
  rw [outcome_bind]
  obtain ⟨r, w₁⟩ := outcome step w
  cases r with
  | error e => simp
  | ok a =>
    constructor
    · exact fun h => ⟨a, w₁, rfl, h⟩
    · rintro ⟨_, _, heq, h⟩
      cases heq
      exact h

/-- If something is so after a sequence of steps and was not so before, one of the steps has made
it so. -/
theorem exists_step_of_forM {γ : Type} {f : γ → Work Unit} {xs : List γ} {P : Workshop → Prop}
    {w w' : Workshop} (h : outcome (xs.forM f) w = (.ok (), w')) (hbefore : ¬ P w)
    (hafter : P w') : ∃ before x after w₁ w₂, xs = before ++ x :: after ∧
      outcome (before.forM f) w = (.ok (), w₁) ∧ outcome (f x) w₁ = (.ok (), w₂) ∧
      ¬ P w₁ ∧ P w₂ := by
  induction xs generalizing w with
  | nil =>
    cases h
    exact absurd hafter hbefore
  | cons x rest ih =>
    obtain ⟨_, w₁, hx, hrest⟩ := outcome_bind_eq_ok.mp h
    by_cases hmade : P w₁
    · exact ⟨[], x, rest, w, w₁, rfl, rfl, hx, hbefore, hmade⟩
    · obtain ⟨before, y, after, w₂, w₃, rfl, hrun, hy, hnot, hso⟩ := ih hrest hmade
      refine ⟨x :: before, y, after, w₂, w₃, rfl, ?_, hy, hnot, hso⟩
      exact outcome_bind_eq_ok.mpr ⟨_, w₁, hx, hrun⟩

/-! ## Single steps -/

@[simp] theorem outcome_reserve (base : String) (w : Workshop) :
    outcome (reserve base) w =
      (.ok (Naming.freeName w.reserved base),
        { w with reserved := Naming.freeName w.reserved base :: w.reserved }) := rfl

@[simp] theorem outcome_nameUnderWay? (path : Path) (w : Workshop) :
    outcome (nameUnderWay? path) w = (.ok (w.underWay.lookup path), w) := rfl

@[simp] theorem outcome_declare (e : Declaration) (w : Workshop) :
    outcome (declare e) w = (.ok (), { w with made := e :: w.made }) := rfl

theorem outcome_within (path : Path) (name : String) (step : Work α) (w : Workshop) :
    outcome (within path name step) w =
      ((outcome step (w.enter path name)).1, (outcome step (w.enter path name)).2.leave path) :=
  rfl

/-! ## Fields -/

section

variable {scope : Scope} {resolve : Resolver} {required : List String} {w w' : Workshop}

theorem addField_name {s s' : Struct} {e : String × Place}
    (h : outcome (addField scope resolve required s e) w = (.ok s', w')) : s'.name = s.name := by
  unfold addField at h
  dsimp only at h
  split at h
  · cases h
  · obtain ⟨_, _, _, hdone⟩ := outcome_bind_eq_ok.mp h
    cases hdone
    rfl

/-- A struct keeps its name when fields are added. -/
theorem addFields_name {s s' : Struct} {es : List (String × Place)}
    (h : outcome (es.foldlM (addField scope resolve required) s) w = (.ok s', w')) :
    s'.name = s.name := by
  induction es generalizing s w with
  | nil =>
    cases h
    rfl
  | cons e rest ih =>
    rw [List.foldlM_cons] at h
    obtain ⟨_, _, hfirst, hrest⟩ := outcome_bind_eq_ok.mp h
    exact (ih hrest).trans (addField_name hfirst)

end

/-! ## Scopes -/

theorem outcome_addTarget (targets : Dict Target) (e : Place × String) (w : Workshop) :
    outcome (addTarget targets e) w =
      (.ok (targets.insert (Pointer.ofSegments e.1.path)
          ⟨Naming.freeName w.reserved e.2, e.1⟩),
        { w with reserved := Naming.freeName w.reserved e.2 :: w.reserved }) := rfl

/-- What holds before any target is made and is kept by every new target holds of the targets of a
scope. -/
theorem openScope_induction {d : Document} {scope : Scope} {w w' : Workshop}
    (P : List (Place × String) → Dict Target → Workshop → Prop)
    (hrun : outcome (openScope d) w = (.ok scope, w')) (hempty : P [] ∅ w)
    (hstep : ∀ before e after targets w, d.namedPlaces = before ++ e :: after →
      P before targets w →
      P (before ++ [e])
        (targets.insert (Pointer.ofSegments e.1.path) ⟨Naming.freeName w.reserved e.2, e.1⟩)
        { w with reserved := Naming.freeName w.reserved e.2 :: w.reserved }) :
    scope.document = d ∧ P d.namedPlaces scope.targets w' := by
  have hfold : ∀ (after before : List (Place × String)) (targets : Dict Target) (w : Workshop),
      d.namedPlaces = before ++ after → P before targets w →
      ∀ targets' w', outcome (after.foldlM addTarget targets) w = (.ok targets', w') →
        P d.namedPlaces targets' w' := by
    intro after
    induction after with
    | nil =>
      intro before targets w hall h targets' w' hes
      rw [List.append_nil] at hall
      rw [hall]
      cases hes
      exact h
    | cons e rest ih =>
      intro before targets w hall h targets' w' hrest
      rw [List.foldlM_cons, outcome_bind, outcome_addTarget] at hrest
      have hall' : d.namedPlaces = (before ++ [e]) ++ rest := by
        rw [List.append_assoc, List.singleton_append]
        exact hall
      exact ih _ _ _ hall' (hstep before e rest targets w hall h) _ _ hrest
  unfold openScope at hrun
  obtain ⟨targets, w₁, hes, hscope⟩ := outcome_bind_eq_ok.mp hrun
  cases hscope
  exact ⟨rfl, hfold _ [] _ _ rfl hempty _ _ hes⟩

/-- A scope can always be opened. -/
theorem exists_openScope (d : Document) (w : Workshop) :
    ∃ scope w', outcome (openScope d) w = (.ok scope, w') := by
  have hfold : ∀ (es : List (Place × String)) (targets : Dict Target) (w : Workshop),
      ∃ targets' w', outcome (es.foldlM addTarget targets) w = (.ok targets', w') := by
    intro es
    induction es with
    | nil => intro targets w; exact ⟨targets, w, rfl⟩
    | cons e rest ih =>
      intro targets w
      rw [List.foldlM_cons, outcome_bind, outcome_addTarget]
      exact ih _ _
  obtain ⟨targets, w', hes⟩ := hfold d.namedPlaces ∅ w
  refine ⟨⟨d, targets⟩, w', ?_⟩
  unfold openScope
  rw [outcome_bind, hes]
  rfl

end Work

/-! ## Shapes of schemas -/

/-- The ways in which the type of a schema is found. -/
inductive Shape where
  /-- the type of the target that a reference names -/
  | reference (text : String)
  /-- a struct of its own -/
  | members
  /-- a type that holds no other schema -/
  | plain (type : GoType)
  /-- none, for the schema names an unknown type -/
  | unknown (name : String)
  | list (element : Schema)
  | dictionary (values : Schema)

namespace Schema

/-- How objects without listed members are typed. -/
def objectShape (s : Schema) : Shape :=
  match s.additionalSchema? with
  | some values => .dictionary values
  | none => .plain (if s.type.isSome then .dictionary .anything else .anything)

/-- How lists are typed. -/
def listShape (s : Schema) : Shape :=
  match s.items with
  | some (.uniform item) => .list item
  | _ => .plain (.list .anything)

/-- How a schema that names the types of its values is typed. -/
def namedShape (s : Schema) : List String → Shape
  | ["object"] => s.objectShape
  | ["array"] => s.listShape
  | ["string"] => .plain .text
  | ["integer"] => .plain .integer
  | ["number"] => .plain .float
  | ["boolean"] => .plain .boolean
  | [other] => .unknown other
  | _ => .plain .anything

/-- How a schema is typed. -/
def shape (s : Schema) : Shape :=
  match s.ref with
  | some reference => .reference reference
  | none =>
    if s.hasOwnMembers then .members
    else if s.anyOf.isSome || s.oneOf.isSome then .plain .anything
    else
      match s.type with
      | none => s.objectShape
      | some t => s.namedShape t.withoutNull

theorem additionalSchema?_of_objectShape {s values : Schema}
    (h : s.objectShape = .dictionary values) : s.additionalSchema? = some values := by
  unfold objectShape at h
  split at h
  · next heq => cases h; exact heq
  · cases h

theorem items_of_listShape {s element : Schema} (h : s.listShape = .list element) :
    s.items = some (.uniform element) := by
  unfold listShape at h
  split at h
  · next heq => cases h; exact heq
  · cases h

theorem objectShape_ne_list (s element : Schema) : s.objectShape ≠ .list element := by
  unfold objectShape
  split <;> exact nofun

theorem listShape_ne_dictionary (s values : Schema) : s.listShape ≠ .dictionary values := by
  unfold listShape
  split <;> exact nofun

/-- Only the schema of all elements is called for as an element. -/
theorem items_of_shape {s element : Schema} (h : s.shape = .list element) :
    s.items = some (.uniform element) := by
  unfold shape namedShape at h
  repeat' split at h
  all_goals first
    | exact items_of_listShape h
    | exact absurd h (objectShape_ne_list s element)
    | cases h

/-- Only the schema of members that are not listed is called for as values. -/
theorem additionalSchema?_of_shape {s values : Schema} (h : s.shape = .dictionary values) :
    s.additionalSchema? = some values := by
  unfold shape namedShape at h
  repeat' split at h
  all_goals first
    | exact additionalSchema?_of_objectShape h
    | exact absurd h (listShape_ne_dictionary s values)
    | cases h

/-- A struct is only made for a schema with members of its own. -/
theorem hasOwnMembers_of_shape {s : Schema} (h : s.shape = .members) : s.hasOwnMembers = true := by
  have hobject : s.objectShape ≠ .members := by
    unfold objectShape
    split <;> exact nofun
  have hlist : s.listShape ≠ .members := by
    unfold listShape
    split <;> exact nofun
  unfold shape namedShape at h
  repeat' split at h
  all_goals first
    | exact absurd h hobject
    | exact absurd h hlist
    | cases h
  assumption

theorem ref_of_shape {s : Schema} {reference : String} (h : s.shape = .reference reference) :
    s.ref = some reference := by
  have hobject : s.objectShape ≠ .reference reference := by
    unfold objectShape
    split <;> exact nofun
  have hlist : s.listShape ≠ .reference reference := by
    unfold listShape
    split <;> exact nofun
  unfold shape namedShape at h
  repeat' split at h
  all_goals first
    | exact absurd h hobject
    | exact absurd h hlist
    | cases h
  assumption

end Schema

namespace Work

/-- What is done for a schema of each shape. -/
def typeOfShape (scope : Scope) (resolve : Resolver) (place : Place) (context : String) :
    Shape → Work GoType
  | .reference text => do return targetType (← scope.follow place text)
  | .members => inlineStruct scope resolve place context
  | .plain type => return type
  | .unknown name => throw (scope.complain (place.path ++ ["type"]) (.unknownType name))
  | .list element => do
    return .list (← resolve ⟨element, place.path ++ ["items"]⟩ (context ++ "Items"))
  | .dictionary values => do
    return .dictionary
      (← resolve ⟨values, place.path ++ ["additionalProperties"]⟩ (context ++ "Value"))

theorem dictionaryType_eq (scope : Scope) (resolve : Resolver) (place : Place)
    (context : String) :
    dictionaryType resolve place context =
      typeOfShape scope resolve place context place.schema.objectShape := by
  unfold dictionaryType Schema.objectShape
  cases place.schema.additionalSchema? <;> rfl

theorem listType_eq (scope : Scope) (resolve : Resolver) (place : Place) (context : String) :
    listType resolve place context =
      typeOfShape scope resolve place context place.schema.listShape := by
  unfold listType Schema.listShape
  cases place.schema.items with
  | none => rfl
  | some elements => cases elements <;> rfl

theorem namedType_eq (scope : Scope) (resolve : Resolver) (place : Place) (context : String)
    (names : List String) :
    namedType scope resolve place context names =
      typeOfShape scope resolve place context (place.schema.namedShape names) := by
  unfold namedType Schema.namedShape
  split
  · exact dictionaryType_eq scope resolve place context
  · exact listType_eq scope resolve place context
  all_goals simp_all [typeOfShape]

/-- The type of a schema is found as its shape says. -/
theorem typeWith_eq (scope : Scope) (resolve : Resolver) (place : Place) (context : String) :
    typeWith scope resolve place context =
      typeOfShape scope resolve place context place.schema.shape := by
  unfold typeWith Schema.shape
  cases place.schema.ref with
  | some reference => rfl
  | none =>
    dsimp only
    split
    · rfl
    · split
      · rfl
      · cases place.schema.type with
        | none => exact dictionaryType_eq scope resolve place context
        | some t => exact namedType_eq scope resolve place context t.withoutNull

end Work

end SchemaToGo
