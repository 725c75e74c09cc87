import SchemaToGo.Proofs.Declarations.Growth
set_option autoImplicit false

/-!
# Where references lead

A reference leads to a schema of its document if it is `#` and a pointer to a schema that asks for
a name.  The scope that is opened for a document follows exactly these references:
`leadsTo_of_target` and `not_leadsTo_of_target`.
-/

namespace SchemaToGo

namespace Document

/-- The reference is `#` and a pointer to a schema that asks for a name. -/
def LeadsTo (d : Document) (reference : String) (p : Place) : Prop :=
  ∃ fragment, reference = "#" ++ fragment ∧ Pointer.segments? fragment = some p.path ∧
    d.AsksName p

/-- Schemas that ask for names differ in where they stand. -/
theorem AsksName.eq_of_path {d : Document} (hkeyed : d.schema.Keyed) {p q : Place}
    (hp : d.AsksName p) (hq : d.AsksName q) (hpath : p.path = q.path) : p = q := by
  obtain ⟨e, he, rfl⟩ := List.mem_map.mp (asksName_iff.mp hp)
  obtain ⟨e', he', rfl⟩ := List.mem_map.mp (asksName_iff.mp hq)
  rw [List.inj_on_of_nodup_map (nodup_namedPlaces hkeyed) he he' hpath]

/-- The scope holds the schemas of the document that ask for names, each under its pointer. -/
structure HasScope (d : Document) (scope : Scope) : Prop where
  document : scope.document = d
  keyed : ∀ e ∈ scope.targets.entries,
    e.1 = Pointer.ofSegments e.2.place.path ∧ d.AsksName e.2.place
  all : ∀ p, d.AsksName p → Pointer.ofSegments p.path ∈ scope.targets.keys

end Document

theorem Work.hasScope_of_openScope {d : Document} {scope : Scope} {w w' : Workshop}
    (h : outcome (openScope d) w = (.ok scope, w')) : d.HasScope scope := by
  obtain ⟨hdocument, hkeyed, hall⟩ := openScope_induction
    (fun before targets _ =>
      (∀ e ∈ targets.entries, e.1 = Pointer.ofSegments e.2.place.path ∧ d.AsksName e.2.place) ∧
      ∀ p ∈ before.map Prod.fst, Pointer.ofSegments p.path ∈ targets.keys) h ⟨nofun, nofun⟩ (by
        rintro before e after targets w hplaces ⟨hkeyed, hall⟩
        refine ⟨fun e' he' => ?_, fun p hp => ?_⟩
        · rcases Dict.mem_of_mem_insert he' with rfl | he'
          · refine ⟨rfl, Document.asksName_iff.mpr ?_⟩
            rw [hplaces]
            simp
          · exact hkeyed e' he'
        · rw [Dict.mem_keys_insert]
          rw [List.map_append, List.mem_append] at hp
          rcases hp with hp | hp
          · exact .inr (hall p hp)
          · exact .inl (by rw [List.mem_singleton.mp hp]))
  exact ⟨hdocument, hkeyed, fun p hp => hall p (Document.asksName_iff.mp hp)⟩

namespace Scope

theorem toList_hash (fragment : String) : ("#" ++ fragment).toList = '#' :: fragment.toList := by
  rw [String.toList_append]
  show ['#'] ++ _ = _
  rw [List.singleton_append]

/-- A reference finds a target if it is `#` and a pointer, and the target stands under the pointer
that is built of the same steps. -/
theorem target_eq_ok_iff {scope : Scope} {reference : String} {t : Target} :
    scope.target reference = .ok t ↔ ∃ fragment steps, reference = "#" ++ fragment ∧
      Pointer.segments? fragment = some steps ∧
      scope.targets.find? (Pointer.ofSegments steps) = some t := by
  constructor
  · intro h
    unfold target at h
    split at h
    · next fragment hreference =>
      dsimp only at h
      split at h
      · next t' hfound =>
        cases h
        obtain ⟨steps, hsteps, hfind⟩ := Option.bind_eq_some_iff.mp hfound
        refine ⟨String.ofList fragment, steps, ?_, hsteps, hfind⟩
        rw [← String.toList_inj, hreference, toList_hash, String.toList_ofList]
      · cases h
    · cases h
  · rintro ⟨fragment, steps, rfl, hsteps, hfind⟩
    have hfound : ((Pointer.segments? (String.ofList fragment.toList)).bind fun steps =>
        scope.targets.find? (Pointer.ofSegments steps)) = some t := by
      rw [String.ofList_toList, hsteps]
      exact hfind
    unfold target
    rw [toList_hash]
    simp only [Option.bind_eq_bind, hfound]

end Scope

namespace Document.HasScope

variable {d : Document} {scope : Scope} {reference : String}

theorem asksName (h : d.HasScope scope) {t : Target} (ht : t ∈ scope.targets.values) :
    d.AsksName t.place := by
  obtain ⟨e, he, rfl⟩ := List.mem_map.mp ht
  exact (h.keyed e he).2

/-- Targets differ in where they stand. -/
theorem eq_of_path (h : d.HasScope scope) {t t' : Target} (ht : t ∈ scope.targets.values)
    (ht' : t' ∈ scope.targets.values) (hpath : t.place.path = t'.place.path) : t = t' := by
  obtain ⟨e, he, rfl⟩ := List.mem_map.mp ht
  obtain ⟨e', he', rfl⟩ := List.mem_map.mp ht'
  have hkey : e.1 = e'.1 := by rw [(h.keyed e he).1, (h.keyed e' he').1, hpath]
  have hnodup : (scope.targets.entries.map Prod.fst).Nodup :=
    Entries.Ascending.nodup_keys scope.targets.ascending
  rw [List.inj_on_of_nodup_map hnodup he he' hkey]

theorem sound (h : d.HasScope scope) : scope.Sound := by
  intro t ht
  obtain ⟨p, hp, hplace⟩ := List.mem_map.mp (asksName_iff.mp (h.asksName ht))
  rw [h.document, ← hplace]
  exact Work.holds_of_mem_namedPlaces hp

/-- What is found under a pointer is the target that the pointer leads to. -/
theorem path_of_find? (h : d.HasScope scope) {steps : List String} {t : Target}
    (hfind : scope.targets.find? (Pointer.ofSegments steps) = some t) :
    t.place.path = steps ∧ d.AsksName t.place := by
  obtain ⟨hkey, hasks⟩ := h.keyed _ (Entries.mem_of_find? hfind)
  exact ⟨(Pointer.ofSegments_injective hkey).symm, hasks⟩

theorem leadsTo_of_target (h : d.HasScope scope) {t : Target}
    (htarget : scope.target reference = .ok t) : d.LeadsTo reference t.place := by
  obtain ⟨fragment, steps, hreference, hsteps, hfind⟩ := Scope.target_eq_ok_iff.mp htarget
  obtain ⟨hpath, hasks⟩ := h.path_of_find? hfind
  exact ⟨fragment, hreference, by rw [hsteps, hpath], hasks⟩

/-- A reference that leads somewhere has a target. -/
theorem exists_target_of_leadsTo (h : d.HasScope scope) {p : Place}
    (hleads : d.LeadsTo reference p) : ∃ t, scope.target reference = .ok t ∧
      t.place.path = p.path := by
  obtain ⟨fragment, hreference, hsteps, hasks⟩ := hleads
  obtain ⟨t, hfind⟩ := Dict.exists_find?_of_mem_keys (h.all p hasks)
  exact ⟨t, Scope.target_eq_ok_iff.mpr ⟨fragment, p.path, hreference, hsteps, hfind⟩,
    (h.path_of_find? hfind).1⟩

theorem exists_target_of_asksName (h : d.HasScope scope) (hkeyed : d.schema.Keyed) {p : Place}
    (hp : d.AsksName p) : ∃ t ∈ scope.targets.values, t.place = p := by
  obtain ⟨t, hfind⟩ := Dict.exists_find?_of_mem_keys (h.all p hp)
  obtain ⟨hpath, hasks⟩ := h.path_of_find? hfind
  exact ⟨t, Entries.mem_values_of_find? hfind, hasks.eq_of_path hkeyed hp hpath⟩

/-- The target of a reference is the schema that it leads to. -/
theorem exists_target_at (h : d.HasScope scope) (hkeyed : d.schema.Keyed) {p : Place}
    (hleads : d.LeadsTo reference p) : ∃ t, scope.target reference = .ok t ∧ t.place = p := by
  obtain ⟨t, htarget, hpath⟩ := h.exists_target_of_leadsTo hleads
  have hasks := h.asksName (Scope.mem_targets_of_target htarget)
  obtain ⟨_, _, _, hp⟩ := hleads
  exact ⟨t, htarget, hasks.eq_of_path hkeyed hp hpath⟩

/-- A reference that is complained about leads nowhere. -/
theorem not_leadsTo_of_target (h : d.HasScope scope) {complaint : Complaint}
    (htarget : scope.target reference = .error complaint) (p : Place) :
    ¬ d.LeadsTo reference p := by
  intro hleads
  obtain ⟨t, ht, _⟩ := h.exists_target_of_leadsTo hleads
  rw [ht] at htarget
  cases htarget

end Document.HasScope

end SchemaToGo
