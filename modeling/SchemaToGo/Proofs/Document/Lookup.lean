import SchemaToGo.Proofs.Document.References
import Mathlib.Data.List.Induction
set_option autoImplicit false

/-!
# Looking references up

Every schema of a document that asks for a name becomes one target of its scope.  Schemas take their
names in the order of the document, each the one that is free when those before it have theirs, and
no target replaces another one, because their pointers differ: `openScope_targets`.  A reference is
looked up by its steps, so it finds the target at these steps however its fragment spells them, and
nothing else: `follow_exact`.

Normative source: SPEC_FULL.md section 10, the rows on `$ref`.
-/

namespace SchemaToGo

/-! ## Dictionaries of lists -/

namespace Dict

variable {α : Type}

theorem ofList_concat (es : List (String × α)) (e : String × α) :
    ofList (es ++ [e]) = (ofList es).insert e.1 e.2 := by
  unfold ofList
  rw [List.foldl_append]
  rfl

/-- If no key occurs twice, the dictionary holds what the list holds. -/
theorem find?_ofList_eq_some_iff {es : List (String × α)} (hnodup : (es.map Prod.fst).Nodup)
    {k : String} {v : α} : (ofList es).find? k = some v ↔ (k, v) ∈ es := by
  induction es using List.reverseRecOn with
  | nil => exact ⟨nofun, nofun⟩
  | append_singleton es e ih =>
    rw [List.map_append, List.nodup_append] at hnodup
    obtain ⟨hes, _, hnew⟩ := hnodup
    rw [ofList_concat, List.mem_append, List.mem_singleton]
    by_cases hk : k = e.1
    · subst hk
      have hold : (e.1, v) ∉ es := fun hmem =>
        hnew e.1 (List.mem_map.mpr ⟨_, hmem, rfl⟩) e.1 (by simp) rfl
      rw [find?_insert_self, or_iff_right hold, Option.some.injEq, Prod.ext_iff]
      exact ⟨fun h => ⟨rfl, h.symm⟩, fun h => h.2.symm⟩
    · have hother : (k, v) ≠ e := fun h => hk (congrArg Prod.fst h)
      rw [find?_insert_of_ne _ hk, ih hes, or_iff_left hother]

end Dict

/-! ## The targets of a document -/

/-- The pointer under which a target is kept. -/
def Target.pointer (t : Target) : String := Pointer.ofSegments t.place.path

/-- The targets that schemas become, where some names are reserved: each gets the name that is free
when the schemas before it have theirs. -/
def Target.makeAll (reserved : List String) : List (Place × String) → List Target
  | [] => []
  | e :: rest =>
    let name := Naming.freeName reserved e.2
    ⟨name, e.1⟩ :: makeAll (name :: reserved) rest

/-- The targets of a document that is opened where some names are reserved. -/
def Document.targets (d : Document) (reserved : List String) : List Target :=
  Target.makeAll reserved d.namedPlaces

namespace Target

theorem map_place_makeAll (reserved : List String) (es : List (Place × String)) :
    (makeAll reserved es).map place = es.map Prod.fst := by
  induction es generalizing reserved with
  | nil => rfl
  | cons e rest ih =>
    show e.1 :: (makeAll _ rest).map place = e.1 :: rest.map Prod.fst
    rw [ih]

theorem makeAll_concat (reserved : List String) (es : List (Place × String))
    (e : Place × String) :
    makeAll reserved (es ++ [e]) = makeAll reserved es ++
      [⟨Naming.freeName (((makeAll reserved es).map name).reverse ++ reserved) e.2, e.1⟩] := by
  induction es generalizing reserved with
  | nil => rfl
  | cons first rest ih =>
    rw [List.cons_append]
    simp only [makeAll, ih, List.map_cons, List.reverse_cons, List.append_assoc, List.cons_append,
      List.nil_append]

end Target

namespace Document

variable {d : Document} {reserved : List String}

/-- The targets are the schemas that ask for names, in their order. -/
theorem map_place_targets (d : Document) (reserved : List String) :
    (d.targets reserved).map Target.place = d.namedPlaces.map Prod.fst :=
  Target.map_place_makeAll reserved d.namedPlaces

theorem mem_map_place_targets {p : Place} :
    p ∈ (d.targets reserved).map Target.place ↔ d.AsksName p := by
  rw [map_place_targets, asksName_iff]

/-- No two targets share a pointer. -/
theorem nodup_pointers (hkeyed : d.schema.Keyed) (reserved : List String) :
    ((d.targets reserved).map Target.pointer).Nodup := by
  have hpaths := nodup_namedPlaces hkeyed
  have hmap : (d.targets reserved).map Target.pointer =
      (d.namedPlaces.map fun e => e.1.path).map Pointer.ofSegments := by
    have hplaces := congrArg (List.map fun p : Place => Pointer.ofSegments p.path)
      (map_place_targets d reserved)
    rw [List.map_map, List.map_map] at hplaces
    rw [List.map_map]
    exact hplaces
  rw [hmap]
  exact hpaths.map Pointer.ofSegments_injective

end Document

namespace Work

variable {d : Document} {scope : Scope} {w w' : Workshop}

/-- Opening a scope makes the targets of the document, and keeps each under its pointer. -/
theorem openScope_targets (h : outcome (openScope d) w = (.ok scope, w')) :
    scope.targets = Dict.ofList ((d.targets w.reserved).map fun t => (t.pointer, t)) := by
  obtain ⟨_, htargets, _⟩ := openScope_induction
    (fun before targets w' =>
      targets = Dict.ofList ((Target.makeAll w.reserved before).map fun t => (t.pointer, t)) ∧
      w'.reserved = ((Target.makeAll w.reserved before).map Target.name).reverse ++ w.reserved)
    h ⟨rfl, rfl⟩ (by
      rintro before e after targets w₁ _ ⟨rfl, hreserved⟩
      rw [Target.makeAll_concat, ← hreserved]
      refine ⟨?_, ?_⟩
      · rw [List.map_append, List.map_singleton, Dict.ofList_concat]
        rfl
      · rw [List.map_append, List.reverse_append, List.append_assoc, ← hreserved]
        rfl)
  exact htargets

/-- What is found under a pointer is the target with that pointer. -/
theorem find?_targets_eq_some_iff (hkeyed : d.schema.Keyed)
    (h : outcome (openScope d) w = (.ok scope, w')) {pointer : String} {t : Target} :
    scope.targets.find? pointer = some t ↔ t ∈ d.targets w.reserved ∧ t.pointer = pointer := by
  have hnodup := d.nodup_pointers hkeyed w.reserved
  rw [openScope_targets h, Dict.find?_ofList_eq_some_iff (by rw [List.map_map]; exact hnodup),
    List.mem_map]
  constructor
  · rintro ⟨t', ht', heq⟩
    cases heq
    exact ⟨ht', rfl⟩
  · rintro ⟨ht, rfl⟩
    exact ⟨t, ht, rfl⟩

end Work

/-! ## References -/

theorem Scope.follow_eq_ok_iff {scope : Scope} {place : Place} {reference : String} {t : Target} :
    scope.follow place reference = .ok t ↔ scope.target reference = .ok t := by
  refine ⟨target_of_follow, fun h => ?_⟩
  unfold follow
  rw [h]

section

variable {d : Document} {scope : Scope} {w w' : Workshop} {reference : String}

/-- A reference is followed to the target that stands at the steps of its pointer. -/
theorem Work.target_eq_ok_iff (hkeyed : d.schema.Keyed)
    (h : outcome (openScope d) w = (.ok scope, w')) {t : Target} :
    scope.target reference = .ok t ↔
      t ∈ d.targets w.reserved ∧ d.LeadsTo reference t.place := by
  rw [Scope.target_eq_ok_iff]
  constructor
  · rintro ⟨fragment, steps, hreference, hsteps, hfind⟩
    obtain ⟨ht, hpointer⟩ := (find?_targets_eq_some_iff hkeyed h).mp hfind
    obtain rfl := Pointer.ofSegments_injective hpointer
    exact ⟨ht, fragment, hreference, hsteps,
      Document.mem_map_place_targets.mp (List.mem_map_of_mem ht)⟩
  · rintro ⟨ht, fragment, hreference, hsteps, _⟩
    exact ⟨fragment, t.place.path, hreference, hsteps,
      (find?_targets_eq_some_iff hkeyed h).mpr ⟨ht, rfl⟩⟩

/-- A reference leads somewhere if it is `#` and a pointer without steps, to a root that describes a
type, or with the two steps to a definition. -/
theorem Document.exists_leadsTo_iff :
    (∃ p, d.LeadsTo reference p) ↔ ∃ fragment, reference = "#" ++ fragment ∧
      ((Pointer.segments? fragment = some [] ∧ d.schema.describesType = true) ∨
        ∃ e ∈ d.schema.definitionList,
          Pointer.segments? fragment = some [e.container, e.key]) := by
  constructor
  · rintro ⟨p, fragment, hreference, hsteps, ⟨htype, rfl⟩ | ⟨e, he, rfl⟩⟩
    · exact ⟨fragment, hreference, .inl ⟨hsteps, Schema.describesType_iff.mpr htype⟩⟩
    · exact ⟨fragment, hreference, .inr ⟨e, he, hsteps⟩⟩
  · rintro ⟨fragment, hreference, ⟨hsteps, htype⟩ | ⟨e, he, hsteps⟩⟩
    · exact ⟨_, fragment, hreference, hsteps, .inl ⟨Schema.describesType_iff.mp htype, rfl⟩⟩
    · exact ⟨_, fragment, hreference, hsteps, .inr ⟨e, he, rfl⟩⟩

/-- References are resolved exactly.  The targets of an opened document are its schemas that ask for
names, in their order; no two share a pointer, and each is kept under its own.  Wherever a reference
stands, it is followed if it is `#` and a pointer with the steps of the root, where that describes a
type, or of a definition, and then to the target of that schema.  Every target is reached by the
pointer under which it is kept. -/
theorem follow_exact (hkeyed : d.schema.Keyed)
    (hopen : Work.outcome (Work.openScope d) w = (.ok scope, w')) :
    (d.targets w.reserved).map Target.place = d.namedPlaces.map Prod.fst ∧
    ((d.targets w.reserved).map Target.pointer).Nodup ∧
    (∀ pointer t, scope.targets.find? pointer = some t ↔
      t ∈ d.targets w.reserved ∧ t.pointer = pointer) ∧
    (∀ place reference, (∃ t, scope.follow place reference = .ok t) ↔
      ∃ fragment, reference = "#" ++ fragment ∧
        ((Pointer.segments? fragment = some [] ∧ d.schema.describesType = true) ∨
          ∃ e ∈ d.schema.definitionList,
            Pointer.segments? fragment = some [e.container, e.key])) ∧
    (∀ place reference t, scope.follow place reference = .ok t ↔
      t ∈ d.targets w.reserved ∧ d.LeadsTo reference t.place) ∧
    ∀ t ∈ d.targets w.reserved, ∀ place, scope.follow place ("#" ++ t.pointer) = .ok t := by
  have hfollow : ∀ place reference t, scope.follow place reference = .ok t ↔
      t ∈ d.targets w.reserved ∧ d.LeadsTo reference t.place := by
    intro place reference t
    rw [Scope.follow_eq_ok_iff, Work.target_eq_ok_iff hkeyed hopen]
  refine ⟨d.map_place_targets w.reserved, d.nodup_pointers hkeyed w.reserved,
    fun _ _ => Work.find?_targets_eq_some_iff hkeyed hopen, fun place reference => ?_, hfollow,
    fun t ht place => ?_⟩
  · rw [← Document.exists_leadsTo_iff]
    constructor
    · rintro ⟨t, ht⟩
      exact ⟨t.place, ((hfollow place reference t).mp ht).2⟩
    · rintro ⟨p, hp⟩
      have ⟨_, _, _, hasks⟩ := hp
      have hmem : p ∈ (d.targets w.reserved).map Target.place :=
        Document.mem_map_place_targets.mpr hasks
      obtain ⟨t, ht, rfl⟩ := List.mem_map.mp hmem
      exact ⟨t, (hfollow place reference t).mpr ⟨ht, hp⟩⟩
  · have hasks := Document.mem_map_place_targets.mp (List.mem_map_of_mem (f := Target.place) ht)
    exact (hfollow place _ t).mpr
      ⟨ht, t.pointer, rfl, Pointer.segments?_ofSegments t.place.path, hasks⟩

end

/-- Definitions with empty keys and keys of tildes and slashes. -/
def Document.oddKeys : Document where
  name := "keys.json"
  schema := { Schema.empty with
    definitions := some [("", Schema.empty), ("a/b", Schema.empty)]
    defs := some [("", Schema.empty), ("~1", Schema.empty)] }

/-- The key of a tilde and a one is no slash, and the root is no target. -/
theorem follow_exact_oddKeys : Document.oddKeys.schema.Keyed ∧ ∃ scope w,
    Work.outcome (Work.openScope .oddKeys) Workshop.empty = (.ok scope, w) ∧
      ∀ place,
        (∃ t, scope.follow place "#/$defs/" = .ok t ∧ t.place.path = ["$defs", ""]) ∧
        (∃ t, scope.follow place "#/definitions/a~1b" = .ok t) ∧
        (∃ t, scope.follow place "#/$defs/~01" = .ok t) ∧
        (¬ ∃ t, scope.follow place "#/$defs/~1" = .ok t) ∧
        ¬ ∃ t, scope.follow place "#" = .ok t := by
  have hkeyed : Document.oddKeys.schema.Keyed := by
    constructor <;> decide
  obtain ⟨scope, w, hopen⟩ := Work.exists_openScope .oddKeys Workshop.empty
  obtain ⟨_, _, _, hexists, hfollow, _⟩ := follow_exact hkeyed hopen
  have hfound : ∀ {place : Place} {fragment : String} {e : Schema.Definition},
      e ∈ Document.oddKeys.schema.definitionList →
      Pointer.segments? fragment = some [e.container, e.key] →
      ∃ t, scope.follow place ("#" ++ fragment) = .ok t :=
    fun he hsteps => (hexists _ _).mpr ⟨_, rfl, .inr ⟨_, he, hsteps⟩⟩
  have hnot : ∀ {place : Place} {fragment : String},
      (∀ e ∈ Document.oddKeys.schema.definitionList,
        Pointer.segments? fragment ≠ some [e.container, e.key]) →
      ¬ ∃ t, scope.follow place ("#" ++ fragment) = .ok t := by
    intro place fragment hnone hsome
    obtain ⟨fragment', heq, ⟨_, htype⟩ | ⟨e, he, hsteps⟩⟩ := (hexists _ _).mp hsome
    · cases htype
    · rw [← (String.append_right_inj "#").mp heq] at hsteps
      exact hnone e he hsteps
  refine ⟨hkeyed, scope, w, hopen, fun place => ⟨?_, ?_, ?_, ?_, ?_⟩⟩
  · obtain ⟨t, ht⟩ := @hfound place "/$defs/" ⟨"$defs", "", Schema.empty⟩
      (by simp [Schema.definitionList, Document.oddKeys]) (by decide)
    obtain ⟨_, fragment, heq, hsteps, _⟩ := (hfollow _ _ _).mp ht
    rw [← (String.append_right_inj "#").mp heq] at hsteps
    have hpath : some t.place.path = some ["$defs", ""] := hsteps.symm.trans (by decide)
    exact ⟨t, ht, Option.some.inj hpath⟩
  · exact @hfound place "/definitions/a~1b" ⟨"definitions", "a/b", Schema.empty⟩
      (by simp [Schema.definitionList, Document.oddKeys]) (by decide)
  · exact @hfound place "/$defs/~01" ⟨"$defs", "~1", Schema.empty⟩
      (by simp [Schema.definitionList, Document.oddKeys]) (by decide)
  · exact @hnot place "/$defs/~1" (by simp [Schema.definitionList, Document.oddKeys]; decide)
  · exact @hnot place "" (by decide)

end SchemaToGo
