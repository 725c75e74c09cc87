import SchemaToGo.Proofs.Workshop.Calls
set_option autoImplicit false

/-!
# Runs over documents

The states that a run over a list of documents goes through: the opening of a document's scope, and
the work on one of its targets.  No struct is under way in any of them, and every target stands in
the document of its scope.
-/

namespace SchemaToGo

namespace Work

/-- Work on the documents opens the scope of one of them, when all before it are done. -/
def Opens (documents : List Document) (d : Document) (scope : Scope) (w : Workshop) : Prop :=
  ∃ earlier later w₀, documents = earlier ++ d :: later ∧
    outcome (earlier.forM declareDocument) Workshop.empty = (.ok (), w₀) ∧
    outcome (openScope d) w₀ = (.ok scope, w)

/-- Work on the documents comes to a target of a scope, when all targets before it are done. -/
def Reaches (documents : List Document) (scope : Scope) (t : Target) (w : Workshop) : Prop :=
  ∃ d w₁ before after, Opens documents d scope w₁ ∧ scope.targets.values = before ++ t :: after ∧
    outcome (before.forM (declareTarget scope)) w₁ = (.ok (), w)

/-- A call that is made for a target itself: for the type of an alias, or for a field of a
struct. -/
def Begins (documents : List Document) (scope : Scope) (c : Call) : Prop :=
  ∃ t w, Reaches documents scope t w ∧
    ((t.isStruct = false ∧ c = ⟨t.place, t.name, w⟩) ∨
      (t.isStruct = true ∧
        Consults (fun r => makeStruct scope r t.name t.place) (typeOf scope) w c))

/-- The call `c` makes the call `q`. -/
def Calls (scope : Scope) (c q : Call) : Prop :=
  Consults (fun r => typeWith scope r c.place c.context) (typeOf scope) c.workshop q

/-- The type of a list calls for the type of its elements. -/
theorem calls_of_list {scope : Scope} {c : Call} {element : Schema}
    (h : c.place.schema.shape = .list element) :
    Calls scope c ⟨⟨element, c.place.path ++ ["items"]⟩, c.context ++ "Items", c.workshop⟩ := by
  refine consults_of_makes fun other last hother => ?_
  rw [typeWith_eq, h]
  exact (Makes.call _ other last hother).bind _

/-- A struct that is not under way is entered and then calls for the type of its first property. -/
theorem calls_of_members {scope : Scope} {c : Call} (h : c.place.schema.shape = .members)
    (hnew : c.workshop.underWay.lookup c.place.path = none) {ms : Members}
    (hmembers : Members.ofPlace scope c.place = .ok ms) {e : String × Place}
    {rest : List (String × Place)} (hentries : ms.properties.entries = e :: rest)
    (hkey : e.1 ≠ "") {name : String}
    (hname : name = Naming.freeName c.workshop.reserved
      (Naming.forType c.place.schema.title c.context)) :
    Calls scope c ⟨e.2, name ++ Naming.freeName [] (Naming.forField e.1),
      { c.workshop with reserved := name :: c.workshop.reserved }.enter c.place.path name⟩ := by
  let q : Call := ⟨e.2, name ++ Naming.freeName [] (Naming.forField e.1),
    { c.workshop with reserved := name :: c.workshop.reserved }.enter c.place.path name⟩
  have hfield : ∀ description : Option String,
      Makes (fun r => addField scope r ms.required { Struct.named name with description } e)
        (typeOf scope) q.workshop q := by
    intro description
    unfold addField
    simp only [if_neg hkey]
    exact (Makes.call q).bind _
  have hmake : Makes (fun r => makeStruct scope r name c.place) (typeOf scope) q.workshop q := by
    have hlift : outcome (liftM (Members.ofPlace scope c.place) : Work Members) q.workshop =
        (.ok ms, q.workshop) := by rw [outcome_lift, hmembers]
    unfold makeStruct
    refine Makes.after hlift ?_
    simp only [hentries, List.foldlM_cons]
    exact ((hfield _).bind _).bind _
  refine consults_of_makes fun other last hother => ?_
  rw [typeWith_eq, h]
  unfold typeOfShape inlineStruct
  rw [outcome_bind, outcome_nameUnderWay?, hnew]
  dsimp only
  rw [outcome_bind, outcome_reserve, ← hname]
  dsimp only
  exact (hmake.within other last hother).bind _

/-! ## Scopes -/

theorem holds_of_mem_namedPlaces {d : Document} {e : Place × String} (h : e ∈ d.namedPlaces) :
    d.Holds e.1 := by
  rcases List.mem_append.mp h with h | h
  · split at h
    · rw [List.mem_singleton.mp h]
      exact .root
    · cases h
  · obtain ⟨definition, hdefinition, rfl⟩ := List.mem_map.mp h
    exact .part .root
      (Place.mem_parts_of_definition (p := ⟨d.schema, []⟩) hdefinition)

/-- Opening a scope takes names and does nothing else. -/
theorem openScope_sound {d : Document} {scope : Scope} {w w' : Workshop}
    (h : outcome (openScope d) w = (.ok scope, w')) :
    scope.document = d ∧ scope.Sound ∧ w'.underWay = w.underWay ∧ w'.made = w.made := by
  obtain ⟨hdocument, htargets, hunderWay, hmade⟩ := openScope_induction
    (fun _ targets w' => (∀ t ∈ targets.values, d.Holds t.place) ∧ w'.underWay = w.underWay ∧
      w'.made = w.made) h ⟨by simp, rfl, rfl⟩ (by
        rintro before e after targets w₁ hall ⟨hheld, hunderWay, hmade⟩
        refine ⟨fun t ht => ?_, hunderWay, hmade⟩
        rcases Dict.mem_values_of_mem_insert ht with rfl | ht
        · exact holds_of_mem_namedPlaces (e := e) (by rw [hall]; simp)
        · exact hheld t ht)
  refine ⟨hdocument, ?_, hunderWay, hmade⟩
  unfold Scope.Sound
  rw [hdocument]
  exact htargets

/-! ## Work that ends -/

theorem forM_settles {γ : Type} {xs : List γ} {f : γ → Work Unit} {w : Workshop}
    (h : ∀ x ∈ xs, ∀ w', w'.underWay = w.underWay → Settles w' (f x) (f x)) :
    Settles w (xs.forM f) (xs.forM f) := by
  induction xs generalizing w with
  | nil => exact .of_done rfl nofun
  | cons x rest ih =>
    refine (h x List.mem_cons_self w rfl).bind fun _ w₁ _ hw₁ => ?_
    exact ih fun y hy w' hw' => h y (List.mem_cons_of_mem _ hy) w' (hw'.trans hw₁)

theorem declareTarget_settles {scope : Scope} (hscope : scope.Sound) {t : Target}
    (ht : scope.document.Holds t.place) {w : Workshop} (hw : w.underWay = []) :
    Settles w (declareTarget scope t) (declareTarget scope t) := by
  have hsound : ∀ q : Call, scope.document.Holds q.place → q.workshop.underWay = [] →
      q.Sound scope.document := by
    intro q hq hunderWay
    refine ⟨hq, ?_⟩
    unfold Call.trail
    rw [hunderWay]
    exact .nil _
  unfold declareTarget
  split
  · exact makeStruct_settles hscope t.name ht fun q hq hunderWay =>
      typeOf_settles hscope (hsound q hq (hunderWay.trans hw))
  · exact (typeOf_settles (c := ⟨t.place, t.name, w⟩) hscope (hsound _ ht hw)).bind
      fun type w₁ _ _ => ⟨rfl, by rw [outcome_declare]; exact nofun, rfl⟩

theorem declareTargets_settles {scope : Scope} (hscope : scope.Sound) (targets : List Target)
    (htargets : ∀ t ∈ targets, t ∈ scope.targets.values) {w : Workshop} (hw : w.underWay = []) :
    Settles w (targets.forM (declareTarget scope)) (targets.forM (declareTarget scope)) :=
  forM_settles fun t ht _ hw' =>
    declareTarget_settles hscope (hscope t (htargets t ht)) (hw'.trans hw)

theorem declareDocument_settles (d : Document) {w : Workshop} (hw : w.underWay = []) :
    Settles w (declareDocument d) (declareDocument d) := by
  obtain ⟨scope, w₁, hopen⟩ := exists_openScope d w
  obtain ⟨_, hscope, hunderWay, _⟩ := openScope_sound hopen
  unfold declareDocument
  exact .step hopen hunderWay
    (declareTargets_settles hscope _ (fun _ ht => ht) (hunderWay.trans hw))

theorem declareDocuments_settles (documents : List Document) {w : Workshop}
    (hw : w.underWay = []) :
    Settles w (documents.forM declareDocument) (documents.forM declareDocument) :=
  forM_settles fun d _ _ hw' => declareDocument_settles d (hw'.trans hw)

/-! ## States of a run -/

theorem Opens.sound {documents : List Document} {d : Document} {scope : Scope} {w : Workshop}
    (h : Opens documents d scope w) : scope.document = d ∧ scope.Sound ∧ w.underWay = [] := by
  obtain ⟨earlier, later, w₀, _, hearlier, hopen⟩ := h
  have hw₀ : w₀.underWay = [] := by
    have hrestored := (declareDocuments_settles earlier (w := Workshop.empty) rfl).restored
    rwa [hearlier] at hrestored
  obtain ⟨hdocument, hscope, hunderWay, _⟩ := openScope_sound hopen
  exact ⟨hdocument, hscope, hunderWay.trans hw₀⟩

theorem Reaches.sound {documents : List Document} {scope : Scope} {t : Target} {w : Workshop}
    (h : Reaches documents scope t w) :
    scope.Sound ∧ scope.document.Holds t.place ∧ w.underWay = [] := by
  obtain ⟨d, w₁, before, after, hopen, hvalues, hbefore⟩ := h
  obtain ⟨_, hscope, hw₁⟩ := hopen.sound
  refine ⟨hscope, hscope t (by rw [hvalues]; simp), ?_⟩
  have hsettles := declareTargets_settles hscope before
    (fun s hs => by rw [hvalues]; exact List.mem_append_left _ hs) hw₁
  have hrestored := hsettles.restored
  rw [hbefore] at hrestored
  exact hrestored.trans hw₁

theorem Begins.sound {documents : List Document} {scope : Scope} {c : Call}
    (h : Begins documents scope c) : scope.Sound ∧ c.Sound scope.document := by
  obtain ⟨t, w, hreaches, hcall⟩ := h
  obtain ⟨hscope, ht, hw⟩ := hreaches.sound
  have htrail : scope.document.Trail (w.underWay.map Prod.fst) := by
    rw [hw]
    exact .nil _
  rcases hcall with ⟨_, rfl⟩ | ⟨_, hconsults⟩
  · exact ⟨hscope, ht, htrail⟩
  · exact ⟨hscope, (sound_of_makeStruct_consults hscope ht htrail hconsults).1⟩

/-- Along a chain of calls every call is sound, and the chain is no longer than the room of its
first call. -/
theorem isChain_calls {scope : Scope} (hscope : scope.Sound) {c : Call} {calls : List Call}
    (hc : c.Sound scope.document) (h : List.IsChain (Calls scope) (c :: calls)) :
    List.IsChain (Call.Under scope.document) (c :: calls) ∧
      (∀ q ∈ c :: calls, q.Sound scope.document) ∧ calls.length ≤ c.room scope.document := by
  induction calls generalizing c with
  | nil =>
    refine ⟨List.IsChain.singleton c, fun q hq => ?_, Nat.zero_le _⟩
    rw [List.mem_singleton.mp hq]
    exact hc
  | cons q rest ih =>
    obtain ⟨hcall, hrest⟩ := List.isChain_cons_cons.mp h
    have hunder := under_of_consults hscope hc hcall
    obtain ⟨hchain, hsound, hlength⟩ := ih hunder.sound hrest
    refine ⟨List.isChain_cons_cons.mpr ⟨hunder, hchain⟩, fun q' hq' => ?_, ?_⟩
    · rcases List.mem_cons.mp hq' with rfl | hq'
      · exact hc
      · exact hsound q' hq'
    · exact Nat.succ_le_of_lt (Nat.lt_of_le_of_lt hlength hunder.room_lt)

/-! ## The end of a run -/

theorem ofDocuments_eq_ok_iff {documents : List Document} {w : Workshop} :
    Workshop.ofDocuments documents = .ok w ↔
      outcome (documents.forM declareDocument) Workshop.empty = (.ok (), w) := by
  unfold Workshop.ofDocuments outcome
  split
  · next w' heq =>
    rw [heq]
    simp
  · next e w' heq =>
    rw [heq]
    simp

theorem ofDocuments_eq_error_iff {documents : List Document} {e : BuildError} :
    Declarations.ofDocuments documents = .error e ↔
      ∃ w, outcome (documents.forM declareDocument) Workshop.empty = (.error e, w) := by
  unfold Declarations.ofDocuments Workshop.ofDocuments outcome
  split
  · next w heq =>
    rw [heq]
    simp [Except.map]
  · next e' w heq =>
    rw [heq]
    simp [Except.map]

theorem ofDocuments_ne_exhausted (documents : List Document) :
    Declarations.ofDocuments documents ≠ .error .exhausted := by
  have hended := (declareDocuments_settles documents (w := Workshop.empty) rfl).ended
  unfold Declarations.ofDocuments Workshop.ofDocuments
  unfold outcome at hended
  split
  · exact nofun
  · next e w' heq =>
    rw [heq] at hended
    exact fun h => hended (by cases h; rfl)

/-! ## All work ends -/

/-- All work on documents ends, however their references lead round in circles; no bound is felt.

Collecting members only follows a reference to a target that has not been followed, so the followed
targets are a trail.  A chain of calls for types leaves less and less room: every call either goes
down in its schema or enters a struct that was not under way.  So the structs under way are a trail
at each call of the chain, and the chain is no longer than the bound.  The types that are found
solve the equation in which no bound occurs. -/
theorem work_ends (documents : List Document) :
    Declarations.ofDocuments documents ≠ .error .exhausted ∧
    (∀ d scope w, Opens documents d scope w → ∀ place, d.Holds place →
      (∀ k, Members.SameEnd (Members.ofPlace scope place)
        (Members.collect scope (d.walkBound + k) place Members.empty)) ∧
      ∀ n ms ms', ms.Within scope → Members.collect scope n place ms = .ok ms' →
        Members.Extends scope ms ms') ∧
    ∀ scope c calls, Begins documents scope c → List.IsChain (Calls scope) (c :: calls) →
      (c :: calls).length ≤ scope.document.walkBound ∧
      List.IsChain (Call.Under scope.document) (c :: calls) ∧
      ∀ q ∈ c :: calls, q.Sound scope.document ∧
        answer (typeOf scope) q = answer (typeWith scope (typeOf scope)) q ∧
        (answer (typeOf scope) q).1 ≠ .error .exhausted := by
  refine ⟨ofDocuments_ne_exhausted documents, ?_, ?_⟩
  · intro d scope w hopens place hplace
    obtain ⟨rfl, hscope, _⟩ := hopens.sound
    refine ⟨fun k => Members.ofPlace_sameEnd hscope hplace k, ?_⟩
    exact fun n ms ms' hms hrun => Members.collect_extends hscope n place ms ms' hplace hms hrun
  · intro scope c calls hbegins hchain
    obtain ⟨hscope, hc⟩ := hbegins.sound
    obtain ⟨hunder, hsound, hlength⟩ := isChain_calls hscope hc hchain
    refine ⟨?_, hunder, fun q hq => ?_⟩
    · exact Nat.succ_le_of_lt (Nat.lt_of_le_of_lt hlength hc.room_lt_walkBound)
    · have hq' := hsound q hq
      exact ⟨hq', answer_typeOf hscope hq', (typeOf_settles hscope hq').ended⟩

end Work

namespace Document

/-- The elements of a list: objects with one property. -/
def row : Schema :=
  { Schema.empty with
    properties := some [("count", { Schema.empty with type := some (.single "integer") })] }

/-- A definition that is a list of objects. -/
def rows : Document where
  name := "rows.json"
  schema := { Schema.empty with
    definitions := some [("rows", { Schema.empty with
      type := some (.single "array")
      items := some (.uniform row) })] }

end Document

namespace Work

/-- The call for the type of a list calls for that of its elements, which enters a struct and calls
for the type of a field. -/
theorem work_ends_rows : ∃ scope c q q', Begins [.rows] scope c ∧
    List.IsChain (Calls scope) [c, q, q'] ∧ q.trail = [] ∧ q'.trail = [q.place.path] ∧
    3 ≤ scope.document.walkBound ∧ q'.Sound scope.document ∧
    (answer (typeOf scope) q').1 ≠ .error .exhausted := by
  let place : Place :=
    ⟨{ Schema.empty with type := some (.single "array"), items := some (.uniform Document.row) },
      ["definitions", "rows"]⟩
  let name := Naming.freeName [] (Naming.forType none "rows")
  let w : Workshop := ⟨[], [name], []⟩
  let scope : Scope :=
    ⟨.rows, (∅ : Dict Target).insert (Pointer.ofSegments place.path) ⟨name, place⟩⟩
  let c : Call := ⟨place, name, w⟩
  let q : Call := ⟨⟨Document.row, place.path ++ ["items"]⟩, name ++ "Items", w⟩
  have hopens : Opens [.rows] .rows scope w := ⟨[], [], Workshop.empty, rfl, rfl, rfl⟩
  have hbegins : Begins [.rows] scope c :=
    ⟨⟨name, place⟩, w, ⟨.rows, w, [], [], hopens, rfl, rfl⟩, .inl ⟨by decide, rfl⟩⟩
  have hlist : Calls scope c q := calls_of_list (by rfl)
  have hcount : (match Members.ofPlace scope q.place with
      | .ok ms => ms.properties.keys == ["count"]
      | .error _ => false) = true := by decide +kernel
  cases hmembers : Members.ofPlace scope q.place with
  | error e =>
    rw [hmembers] at hcount
    cases hcount
  | ok ms =>
    rw [hmembers] at hcount
    have hkeys : ms.properties.entries.map Prod.fst = ["count"] := eq_of_beq hcount
    obtain ⟨e, rest, hentries, hkey, _⟩ := List.map_eq_cons_iff.mp hkeys
    have hstruct := calls_of_members (c := q) (by rfl) rfl hmembers hentries
      (by rw [hkey]; decide) rfl
    have hchain := List.isChain_cons_cons.mpr
      ⟨hlist, List.isChain_cons_cons.mpr ⟨hstruct, List.IsChain.singleton _⟩⟩
    obtain ⟨hlength, _, hall⟩ := (work_ends [.rows]).2.2 scope c _ hbegins hchain
    obtain ⟨hsound, _, hended⟩ :=
      hall _ (List.mem_cons_of_mem _ (List.mem_cons_of_mem _ List.mem_cons_self))
    exact ⟨scope, c, q, _, hbegins, hchain, rfl, rfl, hlength, hsound, hended⟩

end Work

end SchemaToGo
