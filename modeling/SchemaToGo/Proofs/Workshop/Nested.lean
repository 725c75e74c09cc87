import SchemaToGo.Proofs.Naming.Camel
import SchemaToGo.Proofs.Workshop.Fields
import SchemaToGo.Proofs.Workshop.Keeping
set_option autoImplicit false

/-!
# Nested structs

The struct of a property without a title is named after the struct around it and the field that
holds it: `makeStruct_nested`.  The two names in a row are converted once more, so the nested struct
has exactly these as its name only if they are in camel case together.  They are if each is and lower
case meets upper case between them: `Naming.IsCamel.append`.

SPEC_FULL.md section 10 names a nested struct after its parent and its field in all cases.
-/

namespace SchemaToGo

/-- The schema is an object of its own that is not named by its title. -/
structure Schema.IsAnonymous (s : Schema) : Prop where
  ref : s.ref = none
  members : s.hasOwnMembers = true
  title : ∀ t ∈ s.title, Naming.exportedName t = ""

namespace Schema.IsAnonymous

variable {s : Schema}

theorem shape_eq (h : s.IsAnonymous) : s.shape = .members := by
  unfold shape
  rw [h.ref]
  exact if_pos h.members

/-- The title of the schema does not matter for its name. -/
theorem forType_eq (h : s.IsAnonymous) (context : String) :
    Naming.forType s.title context = Naming.forType none context := by
  have htitle : Naming.nameSource s.title context = context := by
    unfold Naming.nameSource
    rw [Option.filter_eq_none_iff.mpr fun t ht => by simp [h.title t ht]]
    rfl
  rw [Naming.forType_eq, htitle, Naming.forType_eq]
  rfl

end Schema.IsAnonymous

namespace Work

variable {scope : Scope}

/-! ## New structs -/

/-- The struct of a schema is built under a name: the name is taken, and the struct is declared
under it, while it is under way itself. -/
def Builds (scope : Scope) (bound : Nat) (place : Place) (name : String) (w w' : Workshop) : Prop :=
  ∃ w₁, outcome (makeStruct scope (typeWithin scope bound) name place)
      ({ w with reserved := name :: w.reserved }.enter place.path name) = (.ok (), w₁) ∧
    w' = w₁.leave place.path

/-- A struct that is built is the last one declared. -/
theorem Builds.declares {bound : Nat} {place : Place} {name : String} {w w' : Workshop}
    (h : Builds scope bound place name w w') :
    ∃ s earlier, w'.made = .struct s :: earlier ∧ s.name = name := by
  obtain ⟨w₁, hrun, rfl⟩ := h
  obtain ⟨_, _, _, s, earlier, _, _, _, hmade, hname, _⟩ := makeStruct_fields hrun
  exact ⟨s, earlier, hmade, hname⟩

/-- The type of a schema with members is a struct that is built for it, unless it is under way. -/
theorem typeWithin_members {bound : Nat} {place : Place} {context : String} {w w' : Workshop}
    {type : GoType} (hshape : place.schema.shape = .members)
    (hnew : w.underWay.lookup place.path = none)
    (h : outcome (typeWithin scope bound place context) w = (.ok type, w')) :
    ∃ bound', Builds scope bound' place
        (Naming.freeName w.reserved (Naming.forType place.schema.title context)) w w' ∧
      type = .struct (Naming.freeName w.reserved (Naming.forType place.schema.title context)) := by
  cases bound with
  | zero => cases h
  | succ bound =>
    rw [typeWithin, typeWith_eq, hshape] at h
    unfold typeOfShape inlineStruct at h
    rw [outcome_bind, outcome_nameUnderWay?, hnew] at h
    dsimp only at h
    rw [outcome_bind, outcome_reserve] at h
    dsimp only at h
    obtain ⟨⟨⟩, w₁, hwithin, hdone⟩ := outcome_bind_eq_ok.mp h
    rw [outcome_within] at hwithin
    cases hdone
    rw [Prod.mk.injEq] at hwithin
    obtain ⟨hok, rfl⟩ := hwithin
    exact ⟨bound, ⟨_, Prod.ext hok rfl, rfl⟩, rfl⟩

/-! ## Fields and their types -/

section

variable {resolve : Resolver} {required : List String} {w w' : Workshop}

/-- Adding a field finds its type, in the name of the struct and the field together. -/
theorem addField_resolves {s s' : Struct} {e : String × Place}
    (h : outcome (addField scope resolve required s e) w = (.ok s', w')) :
    ∃ f t, s' = s.insertField f ∧ f.name ∉ s.fields.keys ∧ f.jsonName = e.1 ∧
      f.type = t.toText ∧ outcome (resolve e.2 (s.name ++ f.name)) w = (.ok t, w') := by
  unfold addField at h
  dsimp only at h
  split at h
  · cases h
  · obtain ⟨t, w₁, htype, hdone⟩ := outcome_bind_eq_ok.mp h
    cases hdone
    exact ⟨_, t, rfl, Naming.freeName_not_mem _ _, rfl, rfl, htype⟩

/-- Each property gets a field whose type is found at some time meanwhile. -/
theorem addFields_resolve (hresolve : ∀ place context, Adds (resolve place context))
    {s s' : Struct} {es : List (String × Place)}
    (h : outcome (es.foldlM (addField scope resolve required) s) w = (.ok s', w')) :
    ∃ fs, s.Gains fs s' ∧ ∀ e ∈ es, ∃ f ∈ fs, f.jsonName = e.1 ∧ ∃ t w₁ w₂,
      w.Grown w₁ ∧ w₂.Grown w' ∧ f.type = t.toText ∧
        outcome (resolve e.2 (s.name ++ f.name)) w₁ = (.ok t, w₂) := by
  induction es generalizing s w with
  | nil =>
    cases h
    exact ⟨[], .nil, nofun⟩
  | cons e rest ih =>
    rw [List.foldlM_cons] at h
    obtain ⟨s₁, w₁, hfirst, hrest⟩ := outcome_bind_eq_ok.mp h
    have hgrown := (Adds.foldlM (addField_adds hresolve required) rest s₁).grown hrest
    have hgrown₁ := (addField_adds hresolve required s e).grown hfirst
    obtain ⟨f, t, rfl, hnew, hkey, htype, hrun⟩ := addField_resolves hfirst
    obtain ⟨fs, hgains, hall⟩ := ih hrest
    refine ⟨f :: fs, .cons hnew hgains, List.forall_mem_cons.mpr ⟨?_, fun e' he' => ?_⟩⟩
    · exact ⟨f, List.mem_cons_self, hkey, t, w, w₁, .refl w, hgrown, htype, hrun⟩
    · obtain ⟨f', hf', hkey', t', w₂, w₃, hbefore, hafter⟩ := hall e' he'
      exact ⟨f', List.mem_cons_of_mem _ hf', hkey', t', w₂, w₃, hgrown₁.trans hbefore, hafter⟩

end

/-! ## Names of nested structs -/

/-- When a struct is made, each property that is an object of its own, without a title and not under
way, gets a field whose type points to a struct that is built for it meanwhile.  That struct is
named by the names of the struct and the field in a row, converted once more and with a number if
need be.  The name is that of the two names as they are if and only if they are in camel case
together. -/
theorem makeStruct_nested {bound : Nat} {name : String} {place : Place} {w w' : Workshop}
    (h : outcome (makeStruct scope (typeWithin scope bound) name place) w = (.ok (), w')) :
    ∃ (ms : Members) (s : Struct) (earlier : List Declaration),
      Members.ofPlace scope place = .ok ms ∧ w'.made = .struct s :: earlier ∧ s.name = name ∧
      ∀ e ∈ ms.properties.entries, e.2.schema.IsAnonymous → w.underWay.lookup e.2.path = none →
        ∃ f ∈ s.fields.values, f.jsonName = e.1 ∧
          ∃ (nested : String) (bound' : Nat) (w₁ w₂ : Workshop) (t : Struct)
            (earlier' : List Declaration),
            f.type = "*" ++ nested ∧
            w.Grown w₁ ∧ Builds scope bound' e.2 nested w₁ w₂ ∧ w₂.Grown w' ∧
            w₂.made = .struct t :: earlier' ∧ t.name = nested ∧
            Naming.IsFreed w₁.reserved (Naming.forType none (name ++ f.name)) nested ∧
            (Naming.IsFreed w₁.reserved (name ++ f.name) nested ↔
              Naming.IsCamel (name ++ f.name)) := by
  unfold makeStruct at h
  obtain ⟨ms, w₀, hms, h⟩ := outcome_bind_eq_ok.mp h
  obtain ⟨s, w₃, hfields, hdone⟩ := outcome_bind_eq_ok.mp h
  rw [outcome_lift, Prod.mk.injEq] at hms
  obtain ⟨hmembers, rfl⟩ := hms
  have hdeclare : w₃.Grown w' := (Adds.declare (.struct s)).grown hdone
  cases hdone
  obtain ⟨fs, hgains, hall⟩ := addFields_resolve (typeWithin_adds scope bound) hfields
  refine ⟨ms, s, w₃.made, hmembers, rfl, hgains.name_eq, fun e he hanonymous hnew => ?_⟩
  obtain ⟨f, hf, hkey, type, w₁, w₂, hbefore, hafter, htype, hrun⟩ := hall e he
  rw [← hbefore.underWay] at hnew
  obtain ⟨bound', hbuilds, rfl⟩ := typeWithin_members hanonymous.shape_eq hnew hrun
  rw [hanonymous.forType_eq] at hbuilds htype
  obtain ⟨t, earlier', hmade, hname⟩ := hbuilds.declares
  have hfreed := Naming.isFreed_freeName w₁.reserved (Naming.forType none (name ++ f.name))
  exact ⟨f, (hgains.values_perm rfl).mem_iff.mpr hf, hkey, _, bound', w₁, w₂, t, earlier', htype,
    hbefore, hbuilds, hafter.trans hdeclare, hmade, hname, hfreed,
    Naming.isFreed_iff_isCamel hfreed⟩

/-- An object without properties in an object in an object. -/
def nestedObjects (key inner : String) : Schema :=
  { Schema.empty with
    properties := some [(key, { Schema.empty with
      properties := some [(inner, { Schema.empty with properties := some [] })] })] }

/-- The objects as a document. -/
def nestedDocument (key inner : String) : Document := ⟨"schema.json", nestedObjects key inner⟩

theorem makeStruct_nested_words : ∃ w' s f nested taken,
    outcome (makeStruct ⟨nestedDocument "foo" "bar", ∅⟩
      (typeWithin ⟨nestedDocument "foo" "bar", ∅⟩ 2) "Root" ⟨nestedObjects "foo" "bar", []⟩)
      Workshop.empty = (.ok (), w') ∧
    w'.declarations.structs.keys = ["Root", "RootFoo", "RootFooBar"] ∧
    w'.declarations.structs.find? "Root" = some s ∧ f ∈ s.fields.values ∧
    f.jsonName = "foo" ∧ f.type = "*" ++ nested ∧
    Naming.IsFreed taken (Naming.forType none ("Root" ++ f.name)) nested := by
  let run := outcome (makeStruct ⟨nestedDocument "foo" "bar", ∅⟩
    (typeWithin ⟨nestedDocument "foo" "bar", ∅⟩ 2) "Root" ⟨nestedObjects "foo" "bar", []⟩)
    Workshop.empty
  obtain ⟨⟨⟩, hok⟩ := exists_eq_ok (r := run.1) (by decide +kernel)
  have hrun : run = (.ok (), run.2) := congrArg (·, run.2) hok
  have hkeys : run.2.declarations.structs.keys = ["Root", "RootFoo", "RootFooBar"] := by
    decide +kernel
  obtain ⟨ms, s, earlier, hms, hmade, hname, hall⟩ := makeStruct_nested hrun
  have hentry : ∃ e ∈ ms.properties.entries, e.1 = "foo" ∧ e.2.schema.IsAnonymous := by
    cases hms
    exact ⟨_, List.mem_cons_self, rfl, rfl, rfl, nofun⟩
  obtain ⟨e, he, hkey, hanonymous⟩ := hentry
  obtain ⟨f, hf, hjson, nested, _, w₁, _, _, _, htype, _, _, _, _, _, hfreed, _⟩ :=
    hall e he hanonymous rfl
  have hdeclared : run.2.declarations.structs.find? "Root" = some s := by
    unfold Workshop.declarations
    rw [hmade, ← hname]
    exact Dict.find?_insert_self _ _ _
  exact ⟨run.2, s, f, nested, w₁.reserved, hrun, hkeys, hdeclared, hf, hjson.trans hkey, htype,
    hfreed⟩

/-- A name and a field of a single letter in a row are not in camel case, and the nested struct gets
another name. -/
theorem makeStruct_nested_letters :
    ∃ ds s f, Declarations.ofDocuments [nestedDocument "x" "y"] = .ok ds ∧
      ds.structs.find? "RootX" = some s ∧ s.fields.find? "Y" = some f ∧ f.type = "*RootXy" ∧
      ∀ taken, ¬ Naming.IsFreed taken ("RootX" ++ "Y") "RootXy" := by
  have hok : (Declarations.ofDocuments [nestedDocument "x" "y"]).isOk = true := by decide +kernel
  obtain ⟨ds, hds⟩ := exists_eq_ok hok
  have hfield : ((Declarations.ofDocuments [nestedDocument "x" "y"]).toOption.bind
      (·.structs.find? "RootX")).bind (fun s => (s.fields.find? "Y").map Field.type) =
        some "*RootXy" := by
    decide +kernel
  rw [hds] at hfield
  obtain ⟨s, hs, hfield⟩ := Option.bind_eq_some_iff.mp hfield
  obtain ⟨f, hf, htype⟩ := Option.map_eq_some_iff.mp hfield
  refine ⟨ds, s, f, hds, hs, hf, htype, ?_⟩
  have hprefix : ∀ rest : String, "RootXy" ≠ "RootX" ++ "Y" ++ rest := by
    intro rest h
    have hlist := congrArg (fun t : String => t.toList.take 6) h
    simp at hlist
  rintro taken (⟨_, h⟩ | ⟨_, n, _, h, _⟩)
  · exact absurd h (by decide)
  · exact hprefix _ h

end Work

end SchemaToGo
