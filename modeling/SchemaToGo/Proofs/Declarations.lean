import SchemaToGo.Proofs.Workshop.Origins
import SchemaToGo.Proofs.Workshop.Targets
import SchemaToGo.Proofs.Pointer
import SchemaToGo.Proofs.Schema.Keyed
set_option autoImplicit false

/-!
# What is declared in the end

After all documents nothing is left promised, so every type that is referred to is declared, and
declared as what it is referred to as: `references_resolve`.  No two declared types share a name, so
none has replaced another one, and every schema that asks for a name has its type under it:
`no_type_lost`.

Normative source: SPEC_FULL.md section 3, where names are unique across the whole output, and
section 10, steps 1 to 3.
-/

namespace SchemaToGo

namespace Declarations

/-! ## Headings -/

/-- What is declared. -/
def headings (d : Declarations) : List Heading :=
  d.structs.keys.map (Heading.mk · true) ++ d.aliases.keys.map (Heading.mk · false)

theorem mem_headings {d : Declarations} {x : Heading} :
    x ∈ d.headings ↔ if x.isStruct then x.name ∈ d.structs.keys else x.name ∈ d.aliases.keys := by
  obtain ⟨name, isStruct⟩ := x
  unfold headings
  cases isStruct <;> simp

/-- Adding types declares them and nothing else. -/
theorem mem_headings_ofInserts {made : List Declaration} {x : Heading} :
    x ∈ (ofInserts made).headings ↔ x ∈ made.map Declaration.heading := by
  rw [mem_headings]
  induction made with
  | nil => simp [ofInserts, empty, Dict.keys]
  | cons e rest ih =>
    have hcons : ofInserts (e :: rest) = (ofInserts rest).insert e := rfl
    obtain ⟨name, isStruct⟩ := x
    rw [hcons, List.map_cons, List.mem_cons, ← ih]
    cases e with
    | struct s =>
      cases isStruct with
      | true => simp [insert, insertStruct, Declaration.heading, Dict.mem_keys_insert]
      | false => simp [insert, insertStruct, Declaration.heading]
    | «alias» a =>
      cases isStruct with
      | true => simp [insert, insertAlias, Declaration.heading]
      | false => simp [insert, insertAlias, Declaration.heading, Dict.mem_keys_insert]

/-! ## Entries -/

/-- Every entry is a type that was added, under its own name. -/
structure Holds (made : List Declaration) (d : Declarations) : Prop where
  structs : ∀ e ∈ d.structs.entries, e.2.name = e.1 ∧ .struct e.2 ∈ made
  aliases : ∀ e ∈ d.aliases.entries, e.2.name = e.1 ∧ .alias e.2 ∈ made

theorem holds_ofInserts (made : List Declaration) : Holds made (ofInserts made) := by
  induction made with
  | nil => exact ⟨nofun, nofun⟩
  | cons e rest ih =>
    have hstructs : ∀ x ∈ (ofInserts rest).structs.entries,
        x.2.name = x.1 ∧ .struct x.2 ∈ e :: rest :=
      fun x hx => ⟨(ih.structs x hx).1, List.mem_cons_of_mem _ (ih.structs x hx).2⟩
    have haliases : ∀ x ∈ (ofInserts rest).aliases.entries,
        x.2.name = x.1 ∧ .alias x.2 ∈ e :: rest :=
      fun x hx => ⟨(ih.aliases x hx).1, List.mem_cons_of_mem _ (ih.aliases x hx).2⟩
    cases e with
    | struct s =>
      refine ⟨fun x hx => ?_, haliases⟩
      rcases Dict.mem_of_mem_insert hx with rfl | hx
      · exact ⟨rfl, List.mem_cons_self⟩
      · exact hstructs x hx
    | «alias» a =>
      refine ⟨hstructs, fun x hx => ?_⟩
      rcases Dict.mem_of_mem_insert hx with rfl | hx
      · exact ⟨rfl, List.mem_cons_self⟩
      · exact haliases x hx

theorem struct_mem_of_mem_values {made : List Declaration} {s : Struct}
    (h : s ∈ (ofInserts made).structs.values) : .struct s ∈ made := by
  obtain ⟨e, he, rfl⟩ := List.mem_map.mp h
  exact ((holds_ofInserts made).structs e he).2

theorem alias_mem_of_mem_values {made : List Declaration} {a : Alias}
    (h : a ∈ (ofInserts made).aliases.values) : .alias a ∈ made := by
  obtain ⟨e, he, rfl⟩ := List.mem_map.mp h
  exact ((holds_ofInserts made).aliases e he).2

end Declarations

/-! ## Types refer to declared types -/

theorem Workshop.Sound.declared {w : Workshop} (h : w.Sound []) :
    ∀ e ∈ w.made, e.Sound w.declarations.headings := by
  intro e he
  refine (h.made e he).mono fun x hx => ?_
  rw [known_nil] at hx
  exact Declarations.mem_headings_ofInserts.mpr hx

theorem Workshop.Sound.isWord_of_mem_headings {w : Workshop} (h : w.Sound []) {x : Heading}
    (hx : x ∈ w.declarations.headings) : Naming.IsWord x.name := by
  have hknown : x ∈ w.known [] := by
    rw [Workshop.known_nil]
    exact Declarations.mem_headings_ofInserts.mp hx
  exact h.words _ (h.reserved x hknown)

theorem Workshop.Sound.isWord_of_made {w : Workshop} (h : w.Sound []) {e : Declaration}
    (he : e ∈ w.made) : Naming.IsWord e.name := by
  have hheading : e.heading ∈ w.declarations.headings :=
    Declarations.mem_headings_ofInserts.mpr (List.mem_map_of_mem he)
  have hword := h.isWord_of_mem_headings hheading
  rwa [Declaration.name_heading] at hword

theorem exists_ofDocuments {documents : List Document} {d : Declarations}
    (h : Declarations.ofDocuments documents = .ok d) :
    ∃ w, Workshop.ofDocuments documents = .ok w ∧ w.declarations = d := by
  unfold Declarations.ofDocuments at h
  cases hw : Workshop.ofDocuments documents with
  | error e => rw [hw] at h; cases h
  | ok w => rw [hw] at h; cases h; exact ⟨w, rfl, rfl⟩

/-- Every type of a field and of an alias refers to declared types only, to structs as structs and
to aliases as aliases. -/
theorem references_resolve {documents : List Document} {d : Declarations}
    (h : Declarations.ofDocuments documents = .ok d) :
    (∀ s ∈ d.structs.values, ∀ f ∈ s.fields.values,
      ∃ t : GoType, f.type = t.toText ∧ t.Refers d.headings) ∧
    ∀ a ∈ d.aliases.values, ∃ t : GoType, a.type = t.toText ∧ t.Refers d.headings := by
  obtain ⟨w, hw, rfl⟩ := exists_ofDocuments h
  have hsound := (Work.sound_of_ofDocuments hw).declared
  refine ⟨fun s hs f hf => ?_, fun a ha => ?_⟩
  · exact (hsound _ (Declarations.struct_mem_of_mem_values hs)).typed f hf
  · exact hsound _ (Declarations.alias_mem_of_mem_values ha)

/-- A chain of links: a struct that contains itself, and refers to an alias and a nested struct that
are declared later. -/
def Document.links : Document where
  name := "links.json"
  schema := { Schema.empty with
    title := some "link"
    properties := some [
      ("next", { Schema.empty with ref := some "#" }),
      ("size", { Schema.empty with ref := some "#/definitions/size" }),
      ("tags", { Schema.empty with
        type := some (.single "array")
        items := some (.uniform { Schema.empty with
          properties := some [("link", { Schema.empty with ref := some "#/$defs/link" })] }) })]
    definitions := some [("size", { Schema.empty with type := some (.single "integer") })]
    defs := some [("link", { Schema.empty with type := some (.single "object") })] }

theorem references_resolve_links : ∃ d, Declarations.ofDocuments [.links] = .ok d ∧
    (∀ s ∈ d.structs.values, ∀ f ∈ s.fields.values,
      ∃ t : GoType, f.type = t.toText ∧ t.Refers d.headings) ∧
    ∀ a ∈ d.aliases.values, ∃ t : GoType, a.type = t.toText ∧ t.Refers d.headings := by
  have hok : (Declarations.ofDocuments [.links]).isOk = true := by decide +kernel
  cases hd : Declarations.ofDocuments [.links] with
  | error e => rw [hd] at hok; cases hok
  | ok d => exact ⟨d, rfl, references_resolve hd⟩

/-! ## Every schema that asks for a name gets its type -/

namespace Schema

theorem Keyed.nodup_paths {s : Schema} (h : s.Keyed) :
    (s.definitionList.map fun e => [e.container, e.key]).Nodup := by
  have hcontainer : ∀ (container : String) (es : List (String × Schema)),
      (es.map Prod.fst).Nodup →
        (((es.map fun e => (⟨container, e.1, e.2⟩ : Definition)).map
          fun e => [e.container, e.key]).Nodup) := by
    intro container es hes
    rw [List.map_map]
    refine List.Nodup.of_map (fun path => path.getLast?) ?_
    rw [List.map_map]
    have hsome := hes.map (Option.some_injective _)
    rw [List.map_map] at hsome
    exact hsome
  unfold definitionList
  rw [List.map_append, List.nodup_append]
  refine ⟨hcontainer _ _ h.1, hcontainer _ _ h.2, ?_⟩
  intro path hpath path' hpath' heq
  simp only [List.map_map, List.mem_map, Function.comp] at hpath hpath'
  obtain ⟨e, _, rfl⟩ := hpath
  obtain ⟨e', _, rfl⟩ := hpath'
  exact absurd heq (by simp)

/-- What it is for a root to describe a type. -/
theorem describesType_iff {root : Schema} : root.describesType = true ↔
    root.describesObject = true ∨ root.type ≠ none ∨ root.ref ≠ none := by
  unfold describesType
  rw [Bool.or_eq_true, Bool.or_eq_true, Option.isSome_iff_ne_none, Option.isSome_iff_ne_none,
    or_assoc]

end Schema

namespace Document

/-- The schema at a place asks for a name: a definition, or a root that describes an object, has a
type or refers to another schema. -/
def AsksName (d : Document) (p : Place) : Prop :=
  ((d.schema.describesObject = true ∨ d.schema.type ≠ none ∨ d.schema.ref ≠ none) ∧
      p = ⟨d.schema, []⟩) ∨
    ∃ e ∈ d.schema.definitionList, p = ⟨e.schema, [e.container, e.key]⟩

theorem asksName_iff {d : Document} {p : Place} :
    d.AsksName p ↔ p ∈ d.namedPlaces.map Prod.fst := by
  unfold AsksName namedPlaces
  rw [List.map_append, List.mem_append, List.map_map]
  refine or_congr ?_ ?_
  · rw [← Schema.describesType_iff]
    cases d.schema.describesType <;> simp
  · rw [List.mem_map]
    exact exists_congr fun e => and_congr_right fun _ => eq_comm

/-- The root asks for a name only if it describes a type. -/
theorem AsksName.describesType {d : Document} {p : Place} (h : d.AsksName p)
    (hpath : p.path = []) : d.schema.describesType = true := by
  rcases h with ⟨hdescribes, _⟩ | ⟨e, _, rfl⟩
  · exact Schema.describesType_iff.mpr hdescribes
  · cases hpath

theorem nodup_namedPlaces {d : Document} (h : d.schema.Keyed) :
    (d.namedPlaces.map fun e => e.1.path).Nodup := by
  unfold namedPlaces
  rw [List.map_append, List.map_map]
  refine List.nodup_append.mpr ⟨?_, h.nodup_paths, ?_⟩
  · split <;> simp
  · intro path hpath path' hpath' heq
    obtain ⟨e, _, rfl⟩ := List.mem_map.mp hpath'
    subst heq
    split at hpath <;> simp at hpath

end Document

namespace Work

/-- Every schema that asks for a name is a target with a name that was free, and there are no other
targets. -/
theorem openScope_finds {d : Document} (hkeyed : d.schema.Keyed) {scope : Scope} {w w' : Workshop}
    (hrun : outcome (openScope d) w = (.ok scope, w')) :
    (∀ p, d.AsksName p → ∃ t, scope.targets.find? (Pointer.ofSegments p.path) = some t ∧
      t.place = p ∧ t.name ∉ w.reserved) ∧
    ∀ t ∈ scope.targets.values, d.AsksName t.place := by
  have hnodup := Document.nodup_namedPlaces hkeyed
  obtain ⟨_, hfound, hplaces, _⟩ := openScope_induction
    (fun before targets w' =>
      (∀ e ∈ before, ∃ t, targets.find? (Pointer.ofSegments e.1.path) = some t ∧
        t.place = e.1 ∧ t.name ∉ w.reserved) ∧
      (∀ t ∈ targets.values, t.place ∈ before.map Prod.fst) ∧ w.reserved ⊆ w'.reserved)
    hrun ⟨nofun, nofun, fun _ h => h⟩ (by
      rintro before e after targets w' hall ⟨hfound, hplaces, hsub⟩
      refine ⟨fun e' he' => ?_, fun t ht => ?_, fun _ h => List.mem_cons_of_mem _ (hsub h)⟩
      · rcases List.mem_append.mp he' with he' | he'
        · -- the places have different pointers, so the new target does not replace this one
          have hne : Pointer.ofSegments e'.1.path ≠ Pointer.ofSegments e.1.path := by
            intro heq
            rw [hall, List.map_append, List.nodup_append] at hnodup
            exact hnodup.2.2 _ (List.mem_map_of_mem he') _
              (List.mem_map_of_mem List.mem_cons_self) (Pointer.ofSegments_injective heq)
          rw [Dict.find?_insert_of_ne _ hne]
          exact hfound e' he'
        · rw [List.mem_singleton.mp he', Dict.find?_insert_self]
          refine ⟨_, rfl, rfl, fun h => ?_⟩
          exact Naming.freeName_not_mem w'.reserved e.2 (hsub h)
      · rw [List.map_append, List.mem_append]
        rcases Dict.mem_values_of_mem_insert ht with rfl | ht
        · exact .inr List.mem_cons_self
        · exact .inl (hplaces t ht))
  constructor
  · intro p hp
    obtain ⟨e, he, rfl⟩ := List.mem_map.mp (Document.asksName_iff.mp hp)
    exact hfound e he
  · exact fun t ht => Document.asksName_iff.mpr (hplaces t ht)

/-- A type is declared for a root only if the root describes one. -/
theorem DeclaredFor.describesType {documents : List Document} {d : Document} {p : Place}
    {x : Heading} (h : DeclaredFor documents d p x) (hkeyed : d.schema.Keyed)
    (hpath : p.path = []) : d.schema.describesType = true := by
  have hholds := h.holds
  cases h with
  | target hopens hmem =>
    obtain ⟨_, _, _, _, _, hopen⟩ := hopens
    exact ((openScope_finds hkeyed hopen).2 _ hmem).describesType hpath
  | nested _ _ henters =>
    have hmembers := Schema.hasOwnMembers_of_shape henters.shape
    rw [hholds.eq_root hpath] at hmembers
    unfold Schema.describesType Schema.describesObject
    rw [show d.schema.hasOwnMembers = true from hmembers]
    rfl

/-- A document among those that are worked on is worked on in a sound workshop, and what is
declared then is still declared in the end. -/
theorem declareDocuments_split {earlier later : List Document} {d : Document} {w : Workshop}
    (hrun : Workshop.ofDocuments (earlier ++ d :: later) = .ok w) :
    ∃ w₀ w₁, outcome (earlier.forM declareDocument) Workshop.empty = (.ok (), w₀) ∧
      outcome (declareDocument d) w₀ = (.ok (), w₁) ∧ w₀.Sound [] ∧ w₁.Grown w := by
  have hrun' := ofDocuments_eq_ok_iff.mp hrun
  rw [List.forM_eq_forM, List.forM_append] at hrun'
  obtain ⟨_, w₀, hearlier, hrest⟩ := outcome_bind_eq_ok.mp hrun'
  rw [List.forM_cons] at hrest
  obtain ⟨_, w₁, hd, hlater⟩ := outcome_bind_eq_ok.mp hrest
  refine ⟨w₀, w₁, hearlier, hd, declareDocuments_sound .empty hearlier, ?_⟩
  exact (Adds.forM declareDocument_adds later).grown hlater

end Work

/-! ## Nothing is lost -/

/-- What is declared stands under its own name, and no name is that of a struct and of an alias. -/
structure Declarations.Tidy (d : Declarations) : Prop where
  structs : ∀ e ∈ d.structs.entries, e.2.name = e.1
  aliases : ∀ e ∈ d.aliases.entries, e.2.name = e.1
  disjoint : ∀ name ∈ d.structs.keys, name ∉ d.aliases.keys

theorem Workshop.Sound.tidy {w : Workshop} (h : w.Sound []) : w.declarations.Tidy := by
  have hholds := Declarations.holds_ofInserts w.made
  refine ⟨fun e he => (hholds.structs e he).1, fun e he => (hholds.aliases e he).1, ?_⟩
  intro name hstruct halias
  have hdistinct := h.distinct
  rw [known_nil] at hdistinct
  have hmem : ∀ isStruct, (⟨name, isStruct⟩ : Heading) ∈ w.declarations.headings →
      (⟨name, isStruct⟩ : Heading) ∈ w.made.map Declaration.heading :=
    fun _ hx => Declarations.mem_headings_ofInserts.mp hx
  have hsame := List.inj_on_of_nodup_map hdistinct
    (hmem true (Declarations.mem_headings.mpr hstruct))
    (hmem false (Declarations.mem_headings.mpr halias)) rfl
  cases hsame

/-- A type is added under a name that no type had before. -/
theorem Workshop.Sound.fresh {w : Workshop} (h : w.Sound []) {later earlier : List Declaration}
    {e : Declaration} (hmade : w.made = later ++ e :: earlier) :
    ∀ x ∈ (Declarations.ofInserts earlier).headings, x.name ≠ e.name := by
  intro x hx hname
  have hdistinct := h.distinct
  rw [known_nil, hmade, List.map_map, List.map_append] at hdistinct
  have hafter := (List.nodup_append.mp hdistinct).2.1
  rw [List.map_cons, List.nodup_cons] at hafter
  refine hafter.1 ?_
  obtain ⟨e', he', rfl⟩ := List.mem_map.mp (Declarations.mem_headings_ofInserts.mp hx)
  refine List.mem_map.mpr ⟨e', he', ?_⟩
  rw [Function.comp, hname, Function.comp, Declaration.name_heading]

/-- No type is lost, replaced or declared twice.  Every schema of a document that asks for a name
gets a free one when the document is opened, and in the end that is the name of a struct if the
schema describes an object, and of an alias otherwise; the other schemas of the document get no name
then.  Besides these types only the structs of nested schemas are declared, and nothing at all for a
root that describes no object, has no type and refers to nothing.  The keys of definitions differ in every schema that is read:
`Schema.keyed_of_parse`. -/
theorem no_type_lost {documents : List Document} (hkeyed : ∀ d ∈ documents, d.schema.Keyed)
    {w : Workshop} (hrun : Workshop.ofDocuments documents = .ok w) :
    w.declarations.Tidy ∧
    (∀ later e earlier, w.made = later ++ e :: earlier →
      ∀ x ∈ (Declarations.ofInserts earlier).headings, x.name ≠ e.name) ∧
    (∀ x ∈ w.declarations.headings, ∃ d ∈ documents, ∃ p, d.Holds p ∧
      Work.DeclaredFor documents d p x) ∧
    (∀ d ∈ documents, d.schema.describesObject = false → d.schema.type = none →
      d.schema.ref = none → ∀ x, ¬ Work.DeclaredFor documents d ⟨d.schema, []⟩ x) ∧
    ∀ earlier d later, documents = earlier ++ d :: later → ∃ w₀ scope w₁,
      Work.outcome (earlier.forM Work.declareDocument) Workshop.empty = (.ok (), w₀) ∧
      Work.outcome (Work.openScope d) w₀ = (.ok scope, w₁) ∧
      (∀ p, d.AsksName p → ∃ t, scope.targets.find? (Pointer.ofSegments p.path) = some t ∧
        t.place = p ∧ t.name ∉ w₀.reserved ∧
        ⟨t.name, p.schema.describesObject⟩ ∈ w.declarations.headings) ∧
      (∀ t ∈ scope.targets.values, d.AsksName t.place) ∧
      (scope.targets.values.map Target.name).Nodup := by
  have hsound := Work.sound_of_ofDocuments hrun
  refine ⟨hsound.tidy, fun later e earlier hmade => hsound.fresh hmade, fun x hx => ?_,
    fun d hd hobject htype href x hx => ?_, ?_⟩
  · obtain ⟨e, he, rfl⟩ := List.mem_map.mp (Declarations.mem_headings_ofInserts.mp hx)
    obtain ⟨d, hd, p, hp⟩ := Work.declaredFor_of_made hrun he
    exact ⟨d, hd, p, hp.holds, hp⟩
  · rcases Schema.describesType_iff.mp (hx.describesType (hkeyed d hd) rfl) with h | h | h
    · rw [hobject] at h
      cases h
    · exact h htype
    · exact h href
  rintro earlier d later rfl
  obtain ⟨w₀, w₂, hearlier, hd, hw₀, hgrown⟩ := Work.declareDocuments_split hrun
  obtain ⟨_, scope, w₁, hopen, _, hdeclared⟩ := Work.declareDocument_sound hw₀ hd
  obtain ⟨hfound, hasks⟩ := Work.openScope_finds (hkeyed d (by simp)) hopen
  refine ⟨w₀, scope, w₁, hearlier, hopen, fun p hp => ?_, hasks, ?_⟩
  · obtain ⟨t, hfind, rfl, hfree⟩ := hfound p hp
    refine ⟨t, hfind, rfl, hfree, ?_⟩
    have hmade := hdeclared t (Entries.mem_values_of_find? hfind)
    exact Declarations.mem_headings_ofInserts.mpr (List.map_subset _ hgrown.made.subset hmade)
  · have hdistinct := (Work.openScope_promises hw₀ hopen).distinct
    unfold Workshop.known Work.headings at hdistinct
    rw [List.map_append, List.map_map] at hdistinct
    have htargets := (List.nodup_append.mp hdistinct).2.1
    rw [List.map_map] at htargets
    exact htargets

/-- A document whose root is a struct, and one whose root only carries a definition. -/
theorem no_type_lost_links : (∀ d ∈ [Document.links, .rows], d.schema.Keyed) ∧
    ∃ w, Workshop.ofDocuments [.links, .rows] = .ok w ∧ w.declarations.Tidy ∧
      (∀ x ∈ w.declarations.headings, ∃ d ∈ [Document.links, .rows], ∃ p, d.Holds p ∧
        Work.DeclaredFor [.links, .rows] d p x) ∧
      (∀ x, ¬ Work.DeclaredFor [.links, .rows] .rows ⟨Document.rows.schema, []⟩ x) ∧
      ∃ scope w₁, Work.outcome (Work.openScope .links) Workshop.empty = (.ok scope, w₁) ∧
        (∃ t, scope.targets.find? "/definitions/size" = some t ∧
          ⟨t.name, false⟩ ∈ w.declarations.headings) ∧
        (scope.targets.values.map Target.name).Nodup := by
  have hkeyed : ∀ d ∈ [Document.links, .rows], d.schema.Keyed := by
    simp only [List.forall_mem_cons]
    exact ⟨⟨by decide, by decide⟩, ⟨by decide, by decide⟩, nofun⟩
  have hok : (Workshop.ofDocuments [.links, .rows]).isOk = true := by decide +kernel
  cases hw : Workshop.ofDocuments [.links, .rows] with
  | error e => rw [hw] at hok; cases hok
  | ok w =>
    obtain ⟨htidy, _, hdeclared, hnone, hall⟩ := no_type_lost hkeyed hw
    obtain ⟨w₀, scope, w₁, hempty, hopen, hfound, _, hnodup⟩ := hall [] .links [.rows] rfl
    cases hempty
    refine ⟨hkeyed, w, rfl, htidy, hdeclared, hnone .rows (by simp) (by decide) rfl rfl, scope, w₁,
      hopen, ?_, hnodup⟩
    obtain ⟨t, hfind, _, _, hheading⟩ :=
      hfound ⟨{ Schema.empty with type := some (.single "integer") }, ["definitions", "size"]⟩
        (.inr ⟨⟨"definitions", "size", _⟩, List.mem_cons_self, rfl⟩)
    exact ⟨t, hfind, hheading⟩

end SchemaToGo
