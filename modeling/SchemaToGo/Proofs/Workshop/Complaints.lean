import SchemaToGo.Proofs.Document.References
set_option autoImplicit false

/-!
# Complaints

Work on documents that ends with a report points at the schema that gives cause for it: the pointer
of the report leads there from the root of the document that it names.  Walks go on at the targets
of references and at joined schemas, so the schema need not be inside the one that was being worked
on; what carries over from step to step is that every place comes with its own path.

Main statement: `unsupported_points_at_cause`.

Normative source: SPEC_FULL.md section 7, on `UnsupportedSchema`.
-/

namespace SchemaToGo

/-! ## Causes -/

/-- The types that a schema may name, besides `null`. -/
def TypeNames.known : List String :=
  ["object", "array", "string", "integer", "number", "boolean"]

namespace Document

/-- The part of the document at the path gives cause for the complaint. -/
inductive Justifies (d : Document) : Path → Complaint → Prop
  | externalReference {p : Place} {reference : String} (held : d.Holds p)
      (ref : p.schema.ref = some reference) (astray : ∀ q, ¬ d.LeadsTo reference q) :
      Justifies d p.path (.externalReference reference)
  | unresolvedReference {p : Place} {reference : String} (held : d.Holds p)
      (ref : p.schema.ref = some reference) (astray : ∀ q, ¬ d.LeadsTo reference q) :
      Justifies d p.path (.unresolvedReference reference)
  | unknownType {p : Place} {name : String} (held : d.Holds p)
      (type : p.schema.type.map TypeNames.withoutNull = some [name])
      (unknown : name ∉ TypeNames.known) :
      Justifies d (p.path ++ ["type"]) (.unknownType name)
  | emptyPropertyName {p : Place} {es : List (String × Schema)} {s : Schema} (held : d.Holds p)
      (properties : p.schema.properties = some es) (property : ("", s) ∈ es) :
      Justifies d (p.path ++ ["properties", ""]) .emptyPropertyName

/-- If the error is a report, it is about the document and justified. -/
def Reports (d : Document) (e : BuildError) : Prop :=
  ∀ u, e = .unsupported u → d.name = u.document ∧ d.Justifies u.path u.complaint

/-- The entry is a property of a schema in the document. -/
def HasProperty (d : Document) (e : String × Place) : Prop :=
  ∃ p, d.Holds p ∧ e ∈ p.properties

theorem HasProperty.holds {d : Document} {e : String × Place} (h : d.HasProperty e) :
    d.Holds e.2 := by
  obtain ⟨p, hp, he⟩ := h
  exact .part hp (Place.mem_parts_of_property he)

/-- A property without a name is complained about where it stands. -/
theorem HasProperty.justifies {d : Document} {place : Place} (h : d.HasProperty ("", place)) :
    d.Justifies place.path .emptyPropertyName := by
  obtain ⟨p, hp, he⟩ := h
  unfold Place.properties at he
  cases hproperties : p.schema.properties with
  | none =>
    rw [hproperties] at he
    cases he
  | some es =>
    rw [hproperties] at he
    obtain ⟨⟨key, s⟩, hs, heq⟩ := List.mem_map.mp he
    cases heq
    exact .emptyPropertyName hp hproperties hs

theorem reports_exhausted (d : Document) : d.Reports .exhausted := nofun

theorem reports_complain {d : Document} {scope : Scope} (hscope : d.HasScope scope) {path : Path}
    {complaint : Complaint} (h : d.Justifies path complaint) :
    d.Reports (scope.complain path complaint) := by
  intro u hu
  cases hu
  exact ⟨by rw [hscope.document], h⟩

end Document

/-! ## References -/

theorem Scope.complaint_of_target {scope : Scope} {reference : String} {complaint : Complaint}
    (h : scope.target reference = .error complaint) :
    complaint = .externalReference reference ∨ complaint = .unresolvedReference reference := by
  unfold target at h
  split at h
  · dsimp only at h
    split at h
    · cases h
    · cases h
      exact .inr rfl
  · cases h
    exact .inl rfl

variable {d : Document} {scope : Scope}

theorem Document.HasScope.reports_of_follow (hscope : d.HasScope scope) {p : Place}
    (hp : d.Holds p) {reference : String} (href : p.schema.ref = some reference) {e : BuildError}
    (h : scope.follow p reference = .error e) : d.Reports e := by
  unfold Scope.follow at h
  cases htarget : scope.target reference with
  | ok t =>
    rw [htarget] at h
    cases h
  | error complaint =>
    rw [htarget] at h
    cases h
    have hastray := hscope.not_leadsTo_of_target htarget
    apply reports_complain hscope
    rcases Scope.complaint_of_target htarget with rfl | rfl
    · exact .externalReference hp href hastray
    · exact .unresolvedReference hp href hastray

/-! ## Members -/

namespace Members

/-- What a walk comes to: properties of schemas in the document, or a justified report. -/
def Fair (d : Document) : Except BuildError Members → Prop
  | .ok ms => ∀ e ∈ ms.properties.entries, d.HasProperty e
  | .error e => d.Reports e

theorem Fair.bind {r : Except BuildError Members} {next : Members → Except BuildError Members}
    (h : Fair d r) (hnext : ∀ ms, Fair d (.ok ms) → Fair d (next ms)) : Fair d (r >>= next) := by
  cases r with
  | error e => exact h
  | ok ms => exact hnext ms h

theorem Fair.addProperty {ms : Members} {e : String × Place} (h : Fair d (.ok ms))
    (he : d.HasProperty e) : Fair d (.ok (ms.addProperty e)) := by
  unfold Members.addProperty
  split
  · exact h
  · intro e' he'
    rcases Dict.mem_of_mem_insert he' with rfl | he'
    · exact he
    · exact h e' he'

theorem Fair.addOwn {ms : Members} {place : Place} (h : Fair d (.ok ms)) (hplace : d.Holds place) :
    Fair d (.ok (ms.addOwn place)) := by
  have hfold : ∀ (es : List (String × Place)) (ms : Members), (∀ e ∈ es, d.HasProperty e) →
      Fair d (.ok ms) → Fair d (.ok (es.foldl Members.addProperty ms)) := by
    intro es
    induction es with
    | nil => intro ms _ h; exact h
    | cons e rest ih =>
      intro ms hes h
      exact ih _ (fun e' he' => hes e' (List.mem_cons_of_mem _ he'))
        (h.addProperty (hes e List.mem_cons_self))
  exact hfold place.properties ms (fun e he => ⟨place, hplace, he⟩) h

theorem followRef_fair (hscope : d.HasScope scope)
    {walk : Place → Members → Except BuildError Members}
    (hwalk : ∀ p ms, d.Holds p → Fair d (.ok ms) → Fair d (walk p ms)) {place : Place}
    (hplace : d.Holds place) {ms : Members} (h : Fair d (.ok ms)) :
    Fair d (followRef scope walk place ms) := by
  unfold followRef
  cases href : place.schema.ref with
  | none => exact h
  | some reference =>
    dsimp only
    cases hfollow : scope.follow place reference with
    | error e => exact hscope.reports_of_follow hplace href hfollow
    | ok target =>
      have htarget := hscope.sound target (Scope.mem_targets_of_follow hfollow)
      rw [hscope.document] at htarget
      dsimp only
      split
      · exact h
      · exact hwalk _ _ htarget h

theorem joinParts_fair {walk : Place → Members → Except BuildError Members}
    (hwalk : ∀ p ms, d.Holds p → Fair d (.ok ms) → Fair d (walk p ms)) {parts : List Place}
    (hparts : ∀ p ∈ parts, d.Holds p) {ms : Members} (h : Fair d (.ok ms)) :
    Fair d (joinParts walk parts ms) := by
  induction parts generalizing ms with
  | nil => exact h
  | cons part rest ih =>
    rw [joinParts_cons]
    refine (hwalk part ms (hparts part List.mem_cons_self) h).bind fun ms₁ h₁ => ?_
    exact ih (fun p hp => hparts p (List.mem_cons_of_mem _ hp)) h₁

theorem collect_fair (hscope : d.HasScope scope) (n : Nat) :
    ∀ place ms, d.Holds place → Fair d (.ok ms) → Fair d (collect scope n place ms) := by
  induction n with
  | zero =>
    intro place ms _ _
    exact d.reports_exhausted
  | succ n ih =>
    intro place ms hplace h
    rw [collect_succ]
    refine (followRef_fair hscope ih hplace (h.addOwn hplace)).bind fun ms₁ h₁ => ?_
    exact joinParts_fair ih (fun p hp => .part hplace (Place.mem_parts_of_allOf hp)) h₁

theorem ofPlace_fair (hscope : d.HasScope scope) {place : Place} (hplace : d.Holds place) :
    Fair d (ofPlace scope place) :=
  collect_fair hscope _ place _ hplace nofun

end Members

/-! ## Shapes -/

namespace Schema

/-- A schema of an unknown type names that type, and no other besides `null`. -/
theorem type_of_shape_unknown {s : Schema} {name : String} (h : s.shape = .unknown name) :
    s.type.map TypeNames.withoutNull = some [name] ∧ name ∉ TypeNames.known := by
  have hobject : s.objectShape ≠ .unknown name := by
    unfold objectShape
    split <;> exact nofun
  have hlist : s.listShape ≠ .unknown name := by
    unfold listShape
    split <;> exact nofun
  have hnamed : ∀ names, s.namedShape names = .unknown name →
      names = [name] ∧ name ∉ TypeNames.known := by
    intro names hnames
    unfold namedShape at hnames
    split at hnames
    · exact absurd hnames hobject
    · exact absurd hnames hlist
    all_goals cases hnames
    refine ⟨rfl, ?_⟩
    simp_all [TypeNames.known]
  unfold shape at h
  repeat' split at h
  · cases h
  · cases h
  · cases h
  · exact absurd h hobject
  · next t ht =>
    rw [ht]
    obtain ⟨hnames, hunknown⟩ := hnamed _ h
    exact ⟨congrArg some hnames, hunknown⟩

end Schema

/-! ## Work that fails -/

namespace Work

variable {α β : Type}

/-- Every error that the work ends with satisfies `P`. -/
def Fails (P : BuildError → Prop) (work : Work α) : Prop :=
  ∀ w e w', outcome work w = (.error e, w') → P e

section

variable {P : BuildError → Prop}

theorem Fails.pure (a : α) : Fails P (pure a : Work α) := by
  intro w e w' hrun
  cases hrun

theorem Fails.throw {e : BuildError} (h : P e) : Fails P (throw e : Work α) := by
  intro w e' w' hrun
  cases hrun
  exact h

theorem Fails.lift {r : Except BuildError α} (h : ∀ e, r = .error e → P e) :
    Fails P (liftM r : Work α) := by
  intro w e w' hrun
  rw [outcome_lift] at hrun
  exact h e (congrArg Prod.fst hrun)

/-- The second step may rely on what the first one comes to. -/
theorem Fails.bind {step : Work α} {next : α → Work β} (h : Fails P step)
    (hnext : ∀ a w w', outcome step w = (.ok a, w') → Fails P (next a)) :
    Fails P (step >>= next) := by
  intro w e w' hrun
  rw [outcome_bind] at hrun
  cases hstep : outcome step w with
  | mk r w₁ =>
    rw [hstep] at hrun
    cases r with
    | error e' =>
      cases hrun
      exact h w e w' hstep
    | ok a => exact hnext a w w₁ hstep w₁ e w' hrun

theorem Fails.foldlM {γ : Type} {f : β → γ → Work β} {cs : List γ}
    (h : ∀ b, ∀ c ∈ cs, Fails P (f b c)) (b : β) : Fails P (cs.foldlM f b) := by
  induction cs generalizing b with
  | nil => exact .pure b
  | cons c rest ih =>
    rw [List.foldlM_cons]
    refine (h b c List.mem_cons_self).bind fun b' _ _ _ => ?_
    exact ih (fun b c hc => h b c (List.mem_cons_of_mem _ hc)) b'

theorem Fails.forM {γ : Type} {f : γ → Work Unit} {cs : List γ} (h : ∀ c ∈ cs, Fails P (f c)) :
    Fails P (cs.forM f) := by
  induction cs with
  | nil => exact .pure ()
  | cons c rest ih =>
    refine (h c List.mem_cons_self).bind fun _ _ _ _ => ?_
    exact ih fun c hc => h c (List.mem_cons_of_mem _ hc)

theorem Fails.within {path : Path} {name : String} {step : Work α} (h : Fails P step) :
    Fails P (within path name step) := by
  intro w e w' hrun
  rw [outcome_within] at hrun
  have herror := (Prod.mk.inj hrun).1
  exact h (w.enter path name) e _ (Prod.ext herror rfl)

theorem Fails.declare (e : Declaration) : Fails P (declare e) := by
  intro w e' w' hrun
  cases hrun

theorem Fails.reserve (base : String) : Fails P (reserve base) := by
  intro w e w' hrun
  cases hrun

end

/-! ## Reports of the work on a document -/

section

variable {resolve : Resolver}

theorem addField_reports (hscope : d.HasScope scope)
    (hresolve : ∀ p context, d.Holds p → Fails d.Reports (resolve p context))
    (required : List String) (s : Struct) {e : String × Place} (he : d.HasProperty e) :
    Fails d.Reports (addField scope resolve required s e) := by
  obtain ⟨key, property⟩ := e
  unfold addField
  dsimp only
  split
  · next hkey =>
    subst hkey
    exact .throw (d.reports_complain hscope he.justifies)
  · exact (hresolve _ _ he.holds).bind fun _ _ _ _ => .pure _

theorem makeStruct_reports (hscope : d.HasScope scope)
    (hresolve : ∀ p context, d.Holds p → Fails d.Reports (resolve p context)) (name : String)
    {place : Place} (hplace : d.Holds place) :
    Fails d.Reports (makeStruct scope resolve name place) := by
  have hmembers := Members.ofPlace_fair hscope hplace
  unfold makeStruct
  refine (Fails.lift fun e he => ?_).bind fun ms w w' hms => ?_
  · rw [he] at hmembers
    exact hmembers
  · have hfound : Members.ofPlace scope place = .ok ms := congrArg Prod.fst hms
    rw [hfound] at hmembers
    refine Fails.bind (Fails.foldlM (fun s e he => ?_) _) fun _ _ _ _ => .declare _
    exact addField_reports hscope hresolve ms.required s (hmembers e he)

theorem inlineStruct_reports (hscope : d.HasScope scope)
    (hresolve : ∀ p context, d.Holds p → Fails d.Reports (resolve p context)) {place : Place}
    (hplace : d.Holds place) (context : String) :
    Fails d.Reports (inlineStruct scope resolve place context) := by
  unfold inlineStruct
  refine Fails.bind (fun _ _ _ hrun => nomatch hrun) fun found _ _ _ => ?_
  cases found with
  | some name => exact .pure _
  | none =>
    refine (Fails.reserve _).bind fun name _ _ _ => ?_
    exact (makeStruct_reports hscope hresolve name hplace).within.bind fun _ _ _ _ => .pure _

theorem typeWith_reports (hscope : d.HasScope scope)
    (hresolve : ∀ p context, d.Holds p → Fails d.Reports (resolve p context)) {place : Place}
    (hplace : d.Holds place) (context : String) :
    Fails d.Reports (typeWith scope resolve place context) := by
  rw [typeWith_eq]
  cases hshape : place.schema.shape with
  | reference text =>
    have href := Schema.ref_of_shape hshape
    refine Fails.bind (Fails.lift fun e he => ?_) fun _ _ _ _ => .pure _
    exact hscope.reports_of_follow hplace href he
  | members => exact inlineStruct_reports hscope hresolve hplace context
  | plain type => exact .pure type
  | unknown name =>
    obtain ⟨htype, hunknown⟩ := Schema.type_of_shape_unknown hshape
    exact .throw (d.reports_complain hscope (.unknownType hplace htype hunknown))
  | list element =>
    have hitems := Place.mem_parts_of_items (Schema.items_of_shape hshape)
    exact (hresolve _ _ (.part hplace hitems)).bind fun _ _ _ _ => .pure _
  | dictionary values =>
    have hvalues := Place.mem_parts_of_additionalSchema (Schema.additionalSchema?_of_shape hshape)
    exact (hresolve _ _ (.part hplace hvalues)).bind fun _ _ _ _ => .pure _

end

theorem typeWithin_reports (hscope : d.HasScope scope) (n : Nat) (place : Place)
    (context : String) (hplace : d.Holds place) :
    Fails d.Reports (typeWithin scope n place context) := by
  induction n generalizing place context with
  | zero => exact .throw d.reports_exhausted
  | succ n ih => exact typeWith_reports hscope ih hplace context

theorem declareTarget_reports (hscope : d.HasScope scope) {t : Target}
    (ht : t ∈ scope.targets.values) : Fails d.Reports (declareTarget scope t) := by
  have hplace := hscope.sound t ht
  rw [hscope.document] at hplace
  unfold declareTarget
  split
  · exact makeStruct_reports hscope (typeWithin_reports hscope _) t.name hplace
  · exact (typeWithin_reports hscope _ _ _ hplace).bind fun _ _ _ _ => .declare _

/-- A report that the work on a document ends with is about that document. -/
theorem declareDocument_reports (d : Document) : Fails d.Reports (declareDocument d) := by
  unfold declareDocument
  refine Fails.bind (fun w e w' hrun => ?_) fun scope w w' hopen => ?_
  · obtain ⟨scope, w₁, hopen⟩ := exists_openScope d w
    rw [hopen] at hrun
    cases hrun
  · exact Fails.forM fun t ht => declareTarget_reports (hasScope_of_openScope hopen) ht

end Work

/-- A report points at the schema that gives cause for it.  Its pointer is `#` and a text that
splits into the steps from the root of a document of that name. -/
theorem unsupported_points_at_cause {documents : List Document} {u : Unsupported}
    (h : Declarations.ofDocuments documents = .error (.unsupported u)) :
    ∃ d ∈ documents, d.name = u.document ∧ ∃ fragment path, u.pointer = "#" ++ fragment ∧
      Pointer.segments? fragment = some path ∧ d.Justifies path u.complaint := by
  have hall : Work.Fails (fun e => ∃ d ∈ documents, d.Reports e)
      (documents.forM Work.declareDocument) :=
    Work.Fails.forM fun d hd w e w' hrun =>
      ⟨d, hd, Work.declareDocument_reports d w e w' hrun⟩
  obtain ⟨w, hrun⟩ := Work.ofDocuments_eq_error_iff.mp h
  obtain ⟨d, hd, hreports⟩ := hall _ _ _ hrun
  obtain ⟨hname, hjustifies⟩ := hreports u rfl
  exact ⟨d, hd, hname, Pointer.ofSegments u.path, u.path, rfl,
    Pointer.segments?_ofSegments u.path, hjustifies⟩

/-- A property that joins a definition by reference.  The unknown type is that of a property found
there. -/
def Document.detour : Document where
  name := "detour.json"
  schema := { Schema.empty with
    properties := some [("a/b", { Schema.empty with
      allOf := some [{ Schema.empty with ref := some "#/$defs/x~0y" }] })]
    defs := some [("x~y", { Schema.empty with
      properties := some [("when", { Schema.empty with type := some (.single "date") })] })] }

theorem unsupported_points_at_cause_detour : ∃ u : Unsupported,
    Declarations.ofDocuments [.links, .detour] = .error (.unsupported u) ∧
    u.message = "unsupported type 'date' at '#/$defs/x~0y/properties/when/type' in detour.json" ∧
    ∃ d ∈ [Document.links, .detour], d.name = u.document ∧ ∃ fragment path,
      u.pointer = "#" ++ fragment ∧ Pointer.segments? fragment = some path ∧
      d.Justifies path u.complaint := by
  let u : Unsupported :=
    ⟨"detour.json", ["$defs", "x~y", "properties", "when", "type"], .unknownType "date"⟩
  have hrun : (match Declarations.ofDocuments [.links, .detour] with
      | .error e => decide (e = .unsupported u)
      | .ok _ => false) = true := by decide +kernel
  split at hrun
  · next e heq =>
    have he : e = .unsupported u := of_decide_eq_true hrun
    rw [he] at heq
    exact ⟨u, heq, by decide +kernel, unsupported_points_at_cause heq⟩
  · cases hrun

end SchemaToGo
