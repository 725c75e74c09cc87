import SchemaToGo.Proofs.Workshop.Promises
set_option autoImplicit false

/-!
# Keeping promises

Work only adds to a workshop, whether it succeeds or not.  If it succeeds and the workshop was
sound, then it is sound afterwards, and the types found refer to what is declared or promised then.
The names of structs under way and of targets to come are promised, so handing them out is safe.
-/

namespace SchemaToGo

namespace Schema

theorem refers_of_objectShape {s : Schema} {type : GoType} (h : s.objectShape = .plain type)
    (known : List Heading) : type.Refers known := by
  unfold objectShape at h
  split at h
  · cases h
  · cases h
    split <;> trivial

theorem refers_of_listShape {s : Schema} {type : GoType} (h : s.listShape = .plain type)
    (known : List Heading) : type.Refers known := by
  unfold listShape at h
  split at h
  · cases h
  · cases h
    trivial

/-- A type that holds no other schema refers to nothing. -/
theorem refers_of_shape {s : Schema} {type : GoType} (h : s.shape = .plain type)
    (known : List Heading) : type.Refers known := by
  unfold shape namedShape at h
  repeat' split at h
  all_goals first
    | exact refers_of_objectShape h known
    | exact refers_of_listShape h known
    | cases h
  all_goals trivial

end Schema

namespace Work

variable {α β : Type}

/-! ## Work of one kind -/

/-- Whatever the work comes to, it takes every workshop to a related one. -/
def Leads (R : Workshop → Workshop → Prop) (work : Work α) : Prop :=
  ∀ w, R w (outcome work w).2

/-- The relation holds when nothing is done, and when one thing is done after another. -/
structure Composes (R : Workshop → Workshop → Prop) : Prop where
  refl : ∀ w, R w w
  trans : ∀ {w w' w''}, R w w' → R w' w'' → R w w''

/-- The relation also allows what is done to find a type: names are taken and structs declared, and
that while another struct is under way. -/
structure Allows (R : Workshop → Workshop → Prop) : Prop extends Composes R where
  reserve : ∀ (w : Workshop) name, R w { w with reserved := name :: w.reserved }
  struct : ∀ (w : Workshop) s, R w { w with made := .struct s :: w.made }
  nested : ∀ {w w' : Workshop} {path : Path} (name : String),
    path ∉ w.underWay.map Prod.fst → R (w.enter path name) w' → R w (w'.leave path)

section

variable {R : Workshop → Workshop → Prop}

theorem Leads.pure (hR : Composes R) (a : α) : Leads R (pure a : Work α) := fun w => hR.refl w

theorem Leads.throw (hR : Composes R) (e : BuildError) : Leads R (throw e : Work α) :=
  fun w => hR.refl w

theorem Leads.lift (hR : Composes R) (r : Except BuildError α) : Leads R (liftM r : Work α) :=
  fun w => hR.refl w

theorem Leads.bind (hR : Composes R) {step : Work α} {next : α → Work β} (h : Leads R step)
    (hnext : ∀ a, Leads R (next a)) : Leads R (step >>= next) := by
  intro w
  have hw := h w
  rw [outcome_bind]
  cases hrun : outcome step w with
  | mk r w₁ =>
    rw [hrun] at hw
    cases r with
    | error e => exact hw
    | ok a => exact hR.trans hw (hnext a w₁)

theorem Leads.foldlM (hR : Composes R) {γ : Type} {f : β → γ → Work β}
    (h : ∀ b c, Leads R (f b c)) (cs : List γ) (b : β) : Leads R (cs.foldlM f b) := by
  induction cs generalizing b with
  | nil => exact .pure hR b
  | cons c rest ih =>
    rw [List.foldlM_cons]
    exact .bind hR (h b c) ih

theorem Leads.forM (hR : Composes R) {γ : Type} {f : γ → Work Unit} (h : ∀ c, Leads R (f c))
    (cs : List γ) : Leads R (cs.forM f) := by
  induction cs with
  | nil => exact .pure hR ()
  | cons c rest ih => exact .bind hR (h c) fun _ => ih

variable {scope : Scope} {resolve : Resolver}

theorem addField_leads (hR : Composes R)
    (hresolve : ∀ place context, Leads R (resolve place context)) (required : List String)
    (s : Struct) (e : String × Place) : Leads R (addField scope resolve required s e) := by
  unfold addField
  dsimp only
  split
  · exact .throw hR _
  · exact .bind hR (hresolve _ _) fun _ => .pure hR _

theorem makeStruct_leads (hR : Allows R)
    (hresolve : ∀ place context, Leads R (resolve place context)) (name : String)
    (place : Place) : Leads R (makeStruct scope resolve name place) := by
  have hC := hR.toComposes
  unfold makeStruct
  refine .bind hC (.lift hC _) fun ms => ?_
  refine .bind hC (.foldlM hC (fun s e => addField_leads hC hresolve ms.required s e) _ _) ?_
  exact fun s w => hR.struct w s

/-- A struct is only entered when it is not under way. -/
theorem inlineStruct_leads (hR : Allows R)
    (hresolve : ∀ place context, Leads R (resolve place context)) (place : Place)
    (context : String) : Leads R (inlineStruct scope resolve place context) := by
  intro w
  unfold inlineStruct
  rw [outcome_bind, outcome_nameUnderWay?]
  dsimp only
  cases hlookup : w.underWay.lookup place.path with
  | some name => exact hR.refl w
  | none =>
    dsimp only
    rw [outcome_bind, outcome_reserve]
    dsimp only
    generalize Naming.freeName _ _ = name
    let taken : Workshop := { w with reserved := name :: w.reserved }
    have hmake : Leads R (makeStruct scope resolve name place) :=
      makeStruct_leads hR hresolve name place
    have hleft := hR.trans (hR.reserve w name)
      (hR.nested name (Workshop.not_mem_underWay hlookup) (hmake (taken.enter place.path name)))
    rw [outcome_bind, outcome_within]
    cases hrun : (outcome (makeStruct scope resolve name place)
        (taken.enter place.path name)).1 with
    | error e => simpa only [taken, hrun, outcome_pure] using hleft
    | ok _ => simpa only [taken, hrun, outcome_pure] using hleft

/-- Only making a struct of its own may do more than the calls for inner types. -/
theorem typeWith_leads_of_inline (hC : Composes R)
    (hresolve : ∀ place context, Leads R (resolve place context)) {place : Place}
    {context : String} (hinline : Leads R (inlineStruct scope resolve place context)) :
    Leads R (typeWith scope resolve place context) := by
  rw [typeWith_eq]
  cases place.schema.shape with
  | reference text => exact .bind hC (.lift hC _) fun _ => .pure hC _
  | members => exact hinline
  | plain type => exact .pure hC type
  | unknown name => exact .throw hC _
  | list element => exact .bind hC (hresolve _ _) fun _ => .pure hC _
  | dictionary values => exact .bind hC (hresolve _ _) fun _ => .pure hC _

theorem typeWith_leads (hR : Allows R)
    (hresolve : ∀ place context, Leads R (resolve place context)) (place : Place)
    (context : String) : Leads R (typeWith scope resolve place context) :=
  typeWith_leads_of_inline hR.toComposes hresolve (inlineStruct_leads hR hresolve place context)

theorem typeWithin_leads (hR : Allows R) (scope : Scope) (n : Nat) (place : Place)
    (context : String) : Leads R (typeWithin scope n place context) := by
  induction n generalizing place context with
  | zero => exact .throw hR.toComposes _
  | succ n ih => exact typeWith_leads hR ih place context

/-- Finding a type takes every workshop to a related one. -/
theorem typeOf_leads (hR : Allows R) (scope : Scope) (place : Place) (context : String) :
    Leads R (typeOf scope place context) :=
  typeWithin_leads hR scope _ place context

end

/-! ## Work that only adds -/

/-- The work adds to every workshop and takes nothing away, however it ends. -/
def Adds (work : Work α) : Prop := ∀ w : Workshop, w.Grown (outcome work w).2

theorem grown_allows : Allows Workshop.Grown where
  refl := .refl
  trans := .trans
  reserve _ _ := ⟨List.suffix_rfl, List.suffix_cons _ _, rfl⟩
  struct _ _ := ⟨List.suffix_cons _ _, List.suffix_rfl, rfl⟩
  nested _ hnew h := ⟨h.made, h.reserved, Workshop.underWay_leave hnew h.underWay⟩

theorem Adds.grown {work : Work α} (h : Adds work) {r : Except BuildError α} {w w' : Workshop}
    (hrun : outcome work w = (r, w')) : w.Grown w' := by
  have hw := h w
  rwa [hrun] at hw

theorem Adds.pure (a : α) : Adds (pure a) := Leads.pure grown_allows.toComposes a

theorem Adds.reserve (base : String) : Adds (reserve base) := fun w => grown_allows.reserve w _

theorem Adds.declare (e : Declaration) : Adds (declare e) := fun _ =>
  ⟨List.suffix_cons _ _, List.suffix_rfl, rfl⟩

theorem Adds.bind {step : Work α} {next : α → Work β} (h : Adds step) (hnext : ∀ a, Adds (next a)) :
    Adds (step >>= next) := Leads.bind grown_allows.toComposes h hnext

theorem Adds.foldlM {γ : Type} {f : β → γ → Work β} (h : ∀ b c, Adds (f b c)) (cs : List γ)
    (b : β) : Adds (cs.foldlM f b) := Leads.foldlM grown_allows.toComposes h cs b

theorem Adds.forM {γ : Type} {f : γ → Work Unit} (h : ∀ c, Adds (f c)) (cs : List γ) :
    Adds (cs.forM f) := Leads.forM grown_allows.toComposes h cs

theorem addField_adds {scope : Scope} {resolve : Resolver}
    (hresolve : ∀ place context, Adds (resolve place context)) (required : List String)
    (s : Struct) (e : String × Place) : Adds (addField scope resolve required s e) :=
  addField_leads grown_allows.toComposes hresolve required s e

theorem typeWithin_adds (scope : Scope) (n : Nat) (place : Place) (context : String) :
    Adds (typeWithin scope n place context) := typeWithin_leads grown_allows scope n place context

/-- Finding a type only adds to the workshop. -/
theorem typeOf_adds (scope : Scope) (place : Place) (context : String) :
    Adds (typeOf scope place context) := typeOf_leads grown_allows scope place context

/-! ## Work that keeps promises -/

/-- The resolver only adds, and when it succeeds in a sound workshop in which everything announced
is known, the workshop is sound afterwards and the type refers to what is known then. -/
structure Resolver.Sound (announced : List Heading) (resolve : Resolver) : Prop where
  adds : ∀ place context, Adds (resolve place context)
  keeps : ∀ {place context promised t} {w w' : Workshop}, w.Sound promised →
    announced ⊆ w.known promised → outcome (resolve place context) w = (.ok t, w') →
    w'.Sound promised ∧ t.Refers (w'.known promised)

section

variable {scope : Scope} {resolve : Resolver} {announced promised : List Heading}
  {w w' : Workshop}

theorem addField_sound (hresolve : resolve.Sound announced) {required : List String}
    {s s' : Struct} {e : String × Place} (h : w.Sound promised)
    (hknown : announced ⊆ w.known promised) (hs : s.Sound (w.known promised))
    (hrun : outcome (addField scope resolve required s e) w = (.ok s', w')) :
    w'.Sound promised ∧ s'.Sound (w'.known promised) := by
  unfold addField at hrun
  dsimp only at hrun
  split at hrun
  · cases hrun
  · obtain ⟨t, w₁, hfound, hdone⟩ := outcome_bind_eq_ok.mp hrun
    cases hdone
    have hgrown := (hresolve.adds _ _).grown hfound
    obtain ⟨hw, ht⟩ := hresolve.keeps h hknown hfound
    refine ⟨hw, ?_⟩
    have hs' := hs.mono (hgrown.known_subset promised)
    exact hs'.insertField (Naming.isWord_freeName (Naming.isWord_forField e.1) _) ⟨t, rfl, ht⟩

theorem addFields_sound (hresolve : resolve.Sound announced) {required : List String}
    {s s' : Struct} {es : List (String × Place)} (h : w.Sound promised)
    (hknown : announced ⊆ w.known promised) (hs : s.Sound (w.known promised))
    (hrun : outcome (es.foldlM (addField scope resolve required) s) w = (.ok s', w')) :
    w'.Sound promised ∧ s'.Sound (w'.known promised) := by
  induction es generalizing s w with
  | nil =>
    cases hrun
    exact ⟨h, hs⟩
  | cons e rest ih =>
    rw [List.foldlM_cons] at hrun
    obtain ⟨s₁, w₁, hfirst, hrest⟩ := outcome_bind_eq_ok.mp hrun
    obtain ⟨hw₁, hs₁⟩ := addField_sound hresolve h hknown hs hfirst
    have hgrown := (addField_adds hresolve.adds required s e).grown hfirst
    have hknown₁ := List.Subset.trans hknown (hgrown.known_subset promised)
    exact ih hw₁ hknown₁ hs₁ hrest

/-- Making a struct keeps the promise of its name. -/
theorem makeStruct_sound (hresolve : resolve.Sound announced) {name : String} {place : Place}
    (h : w.Sound (⟨name, true⟩ :: promised))
    (hknown : announced ⊆ w.known (⟨name, true⟩ :: promised))
    (hrun : outcome (makeStruct scope resolve name place) w = (.ok (), w')) :
    w'.Sound promised ∧ ⟨name, true⟩ ∈ w'.made.map Declaration.heading := by
  unfold makeStruct at hrun
  obtain ⟨ms, w₁, hms, hrun⟩ := outcome_bind_eq_ok.mp hrun
  obtain ⟨_, hw₁⟩ := Prod.mk.inj hms
  subst hw₁
  obtain ⟨s, w₂, hfields, hrun⟩ := outcome_bind_eq_ok.mp hrun
  cases hrun
  have hstart : Struct.Sound (w.known (⟨name, true⟩ :: promised))
      { Struct.named name with description := shownDescription place.schema.description } :=
    ⟨nofun, nofun, nofun⟩
  obtain ⟨hw₂, hs⟩ := addFields_sound hresolve h hknown hstart hfields
  have hheading : (Declaration.struct s).heading = ⟨name, true⟩ :=
    congrArg (Heading.mk · true) (addFields_name hfields)
  rw [← hheading] at hw₂ hs ⊢
  refine ⟨hw₂.declare hs, ?_⟩
  exact List.mem_cons_self

/-- While a struct is under way its name is promised, and afterwards it is declared. -/
theorem inlineStruct_sound (hresolve : resolve.Sound announced) {place : Place}
    {context : String} {t : GoType} (h : w.Sound promised) (hknown : announced ⊆ w.known promised)
    (hrun : outcome (inlineStruct scope resolve place context) w = (.ok t, w')) :
    w'.Sound promised ∧ t.Refers (w'.known promised) := by
  unfold inlineStruct at hrun
  rw [outcome_bind, outcome_nameUnderWay?] at hrun
  dsimp only at hrun
  cases hlookup : w.underWay.lookup place.path with
  | some name =>
    rw [hlookup] at hrun
    cases hrun
    obtain ⟨before, after, hunderWay, _⟩ := List.lookup_eq_some_iff.mp hlookup
    exact ⟨h, h.underWay (place.path, name) (by rw [hunderWay]; simp)⟩
  | none =>
    rw [hlookup] at hrun
    dsimp only at hrun
    rw [outcome_bind, outcome_reserve] at hrun
    dsimp only at hrun
    have hreserved := h.reserve (Naming.isWord_forType place.schema.title context) true
    generalize Naming.freeName _ _ = name at hrun hreserved
    obtain ⟨_, w₁, hmake, hdone⟩ := outcome_bind_eq_ok.mp hrun
    cases hdone
    rw [outcome_within] at hmake
    obtain ⟨hok, hleft⟩ := Prod.mk.inj hmake
    subst hleft
    have hpromise : ⟨name, true⟩ ∈ Workshop.known
        { w with reserved := name :: w.reserved } (⟨name, true⟩ :: promised) :=
      List.mem_append_right _ List.mem_cons_self
    have hentered := hreserved.enter hpromise place.path
    have hknown' : announced ⊆ w.known (⟨name, true⟩ :: promised) := fun x hx =>
      List.perm_middle.mem_iff.mpr (List.mem_cons_of_mem _ (hknown hx))
    obtain ⟨hsound, hdeclared⟩ :=
      makeStruct_sound hresolve hentered hknown' (Prod.ext hok rfl)
    exact ⟨hsound.leave place.path, List.mem_append_left _ hdeclared⟩

/-- Finding a type keeps promises if the calls that are made for it do. -/
theorem typeWith_sound (hresolve : resolve.Sound announced)
    (htargets : ∀ t ∈ scope.targets.values, t.heading ∈ announced) {place : Place}
    {context : String} {t : GoType} (h : w.Sound promised) (hknown : announced ⊆ w.known promised)
    (hrun : outcome (typeWith scope resolve place context) w = (.ok t, w')) :
    w'.Sound promised ∧ t.Refers (w'.known promised) := by
  rw [typeWith_eq] at hrun
  cases hshape : place.schema.shape with
  | reference text =>
    rw [hshape] at hrun
    obtain ⟨target, w₁, hfollow, hdone⟩ := outcome_bind_eq_ok.mp hrun
    obtain ⟨hfound, hw₁⟩ := Prod.mk.inj hfollow
    subst hw₁
    cases hdone
    refine ⟨h, ?_⟩
    have hheading := hknown (htargets target (Scope.mem_targets_of_follow hfound))
    unfold Target.heading at hheading
    unfold targetType
    cases hstruct : target.isStruct with
    | true => rw [hstruct] at hheading; exact hheading
    | false => rw [hstruct] at hheading; exact hheading
  | members =>
    rw [hshape] at hrun
    exact inlineStruct_sound hresolve h hknown hrun
  | plain type =>
    rw [hshape] at hrun
    cases hrun
    exact ⟨h, Schema.refers_of_shape hshape _⟩
  | unknown name =>
    rw [hshape] at hrun
    cases hrun
  | list element =>
    rw [hshape] at hrun
    obtain ⟨t', w₁, hfound, hdone⟩ := outcome_bind_eq_ok.mp hrun
    cases hdone
    have hkept := hresolve.keeps h hknown hfound
    exact hkept
  | dictionary values =>
    rw [hshape] at hrun
    obtain ⟨t', w₁, hfound, hdone⟩ := outcome_bind_eq_ok.mp hrun
    cases hdone
    have hkept := hresolve.keeps h hknown hfound
    exact hkept

theorem typeWithin_sound (htargets : ∀ t ∈ scope.targets.values, t.heading ∈ announced) (n : Nat) :
    (typeWithin scope n).Sound announced := by
  refine ⟨typeWithin_adds scope n, ?_⟩
  induction n with
  | zero =>
    intro place context promised t w w' _ _ hrun
    cases hrun
  | succ n ih =>
    intro place context promised t w w' h hknown hrun
    exact typeWith_sound ⟨typeWithin_adds scope n, ih⟩ htargets h hknown hrun

theorem typeOf_sound (htargets : ∀ t ∈ scope.targets.values, t.heading ∈ announced) :
    (typeOf scope).Sound announced :=
  typeWithin_sound htargets _

end

end Work

end SchemaToGo
