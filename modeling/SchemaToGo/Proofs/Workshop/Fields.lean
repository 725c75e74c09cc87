import SchemaToGo.Proofs.Document.Inheritance
import SchemaToGo.Proofs.Naming
import SchemaToGo.Proofs.Result
import SchemaToGo.Proofs.Workshop.Step
set_option autoImplicit false

/-!
# Fields of structs

A struct gains one field for every property that has been found, each under a name that no field of
it had before, so no field is lost: `makeStruct_fields`.  This holds however types are found.

Normative source: SPEC_FULL.md section 10, the row on `allOf` and the names of fields.
-/

namespace SchemaToGo

/-! ## Fields under new names -/

theorem Entries.erase_of_not_mem {α : Type} {k : String} {es : Entries α}
    (h : k ∉ es.map Prod.fst) : erase k es = es := by
  refine List.filter_eq_self.mpr fun e he => decide_eq_true fun heq => ?_
  exact h (heq ▸ List.mem_map_of_mem he)

/-- An insertion under a new key keeps all entries. -/
theorem Dict.entries_insert_perm {α : Type} {d : Dict α} {k : String} (h : k ∉ d.keys) (v : α) :
    (d.insert k v).entries.Perm ((k, v) :: d.entries) := by
  have hperm := Entries.insert_perm (k := k) (v := v) d.ascending
  rwa [Entries.erase_of_not_mem h] at hperm

namespace Struct

/-- The second struct comes of the first one by insertions of fields, of which none replaces an
earlier field. -/
inductive Gains : Struct → List Field → Struct → Prop
  | nil {s : Struct} : Gains s [] s
  | cons {s s' : Struct} {f : Field} {fs : List Field} : f.name ∉ s.fields.keys →
      Gains (s.insertField f) fs s' → Gains s (f :: fs) s'

namespace Gains

variable {s s' : Struct} {fs : List Field}

theorem name_eq (h : s.Gains fs s') : s'.name = s.name := by
  induction h with
  | nil => rfl
  | cons _ _ ih => exact ih

/-- The fields afterwards are those before and the gained ones. -/
theorem entries_perm (h : s.Gains fs s') :
    s'.fields.entries.Perm (s.fields.entries ++ fs.map fun f => (f.name, f)) := by
  induction h with
  | nil => rw [List.map_nil, List.append_nil]
  | @cons s s' f fs hnew _ ih =>
    rw [List.map_cons]
    exact ih.trans (((Dict.entries_insert_perm hnew f).append_right _).trans
      List.perm_middle.symm)

variable (hempty : s.fields = ∅)

include hempty

/-- The fields of a struct that had none are the gained ones. -/
theorem values_perm (h : s.Gains fs s') : s'.fields.values.Perm fs := by
  have hperm := h.entries_perm.map Prod.snd
  rw [hempty, Dict.entries_empty, List.nil_append, List.map_map] at hperm
  exact hperm.trans (List.Perm.of_eq (List.map_id fs))

theorem eq_name_of_mem_entries (h : s.Gains fs s') :
    ∀ e ∈ s'.fields.entries, e.1 = e.2.name := by
  intro e he
  have hmem := h.entries_perm.mem_iff.mp he
  rw [hempty, Dict.entries_empty, List.nil_append] at hmem
  obtain ⟨f, _, rfl⟩ := List.mem_map.mp hmem
  rfl

/-- All fields have names of their own. -/
theorem nodup_names (h : s.Gains fs s') : (s'.fields.values.map Field.name).Nodup := by
  have hkeys : s'.fields.values.map Field.name = s'.fields.entries.map Prod.fst := by
    unfold Dict.values
    rw [List.map_map]
    exact List.map_congr_left fun e he => (h.eq_name_of_mem_entries hempty e he).symm
  rw [hkeys]
  exact Entries.Ascending.nodup_keys s'.fields.ascending

end Gains

end Struct

/-! ## One field for each property -/

namespace Work

variable {scope : Scope} {resolve : Resolver} {required : List String} {w w' : Workshop}

/-- Adding a field inserts one under a new name, which carries the key of the property. -/
theorem addField_eq_ok {s s' : Struct} {e : String × Place}
    (h : outcome (addField scope resolve required s e) w = (.ok s', w')) :
    ∃ f, s' = s.insertField f ∧ f.name ∉ s.fields.keys ∧ f.jsonName = e.1 ∧
      f.required = required.contains e.1 := by
  unfold addField at h
  dsimp only at h
  split at h
  · cases h
  · obtain ⟨t, w₁, _, hdone⟩ := outcome_bind_eq_ok.mp h
    cases hdone
    exact ⟨_, rfl, Naming.freeName_not_mem _ _, rfl, rfl⟩

/-- Adding fields gains one for each property. -/
theorem addFields_gains {s s' : Struct} {es : List (String × Place)}
    (h : outcome (es.foldlM (addField scope resolve required) s) w = (.ok s', w')) :
    ∃ fs, s.Gains fs s' ∧ fs.map Field.jsonName = es.map Prod.fst ∧
      ∀ f ∈ fs, f.required = required.contains f.jsonName := by
  induction es generalizing s w with
  | nil =>
    cases h
    exact ⟨[], .nil, rfl, nofun⟩
  | cons e rest ih =>
    rw [List.foldlM_cons] at h
    obtain ⟨s₁, w₁, hfirst, hrest⟩ := outcome_bind_eq_ok.mp h
    obtain ⟨f, rfl, hnew, hkey, hrequired⟩ := addField_eq_ok hfirst
    obtain ⟨fs, hgains, hkeys, hall⟩ := ih hrest
    refine ⟨f :: fs, .cons hnew hgains, by rw [List.map_cons, hkey, hkeys, List.map_cons], ?_⟩
    intro f' hf'
    rcases List.mem_cons.mp hf' with rfl | hf'
    · rw [hrequired, hkey]
    · exact hall f' hf'

/-- The struct that is declared for a schema has exactly one field for each property that the
traversal of the schema finds, and a field is required if and only if one of the schemas that are
come to requires its key.  No field replaces another one, and each stands under its own name. -/
theorem makeStruct_fields {name : String} {place : Place}
    (h : outcome (makeStruct scope resolve name place) w = (.ok (), w')) :
    ∃ (ms : Members) (order : List Place) (fs : List Field) (s : Struct)
      (earlier : List Declaration),
      Members.ofPlace scope place = .ok ms ∧ scope.Visits [] [place] order ∧
      (∀ key, key ∈ ms.properties.keys ↔ ∃ p ∈ order, key ∈ p.properties.map Prod.fst) ∧
      w'.made = .struct s :: earlier ∧ s.name = name ∧
      Struct.Gains ⟨name, shownDescription place.schema.description, ∅⟩ fs s ∧
      fs.map Field.jsonName = ms.properties.keys ∧
      (∀ key ∈ ms.properties.keys, ∃! f, f ∈ s.fields.values ∧ f.jsonName = key) ∧
      (∀ f ∈ s.fields.values, f.jsonName ∈ ms.properties.keys ∧
        (f.required = true ↔ ∃ p ∈ order, f.jsonName ∈ p.requiredKeys)) ∧
      (∀ e ∈ s.fields.entries, e.1 = e.2.name) ∧ (s.fields.values.map Field.name).Nodup := by
  unfold makeStruct at h
  obtain ⟨ms, w₁, hms, h⟩ := outcome_bind_eq_ok.mp h
  obtain ⟨s, w₂, hfields, hdone⟩ := outcome_bind_eq_ok.mp h
  cases hdone
  have hmembers : Members.ofPlace scope place = .ok ms := congrArg Prod.fst hms
  obtain ⟨order, hvisits, hfind, hrequired⟩ := Members.ofPlace_gathers hmembers
  obtain ⟨fs, hgains, hkeys, hall⟩ := addFields_gains hfields
  have hperm := hgains.values_perm rfl
  have hnodup : (fs.map Field.jsonName).Nodup := by
    rw [hkeys]
    exact Entries.Ascending.nodup_keys ms.properties.ascending
  refine ⟨ms, order, fs, s, w₂.made, hmembers, hvisits, Members.mem_keys_iff hfind, rfl,
    hgains.name_eq, hgains, hkeys, fun key hkey => ?_, fun f hf => ⟨?_, ?_⟩,
    hgains.eq_name_of_mem_entries rfl, hgains.nodup_names rfl⟩
  · have hmem : key ∈ fs.map Field.jsonName := hkeys ▸ hkey
    obtain ⟨f, hf, rfl⟩ := List.mem_map.mp hmem
    refine ⟨f, ⟨hperm.mem_iff.mpr hf, rfl⟩, fun f' hf' => ?_⟩
    exact List.inj_on_of_nodup_map hnodup (hperm.mem_iff.mp hf'.1) hf hf'.2
  · show f.jsonName ∈ ms.properties.entries.map Prod.fst
    rw [← hkeys]
    exact List.mem_map_of_mem (hperm.mem_iff.mp hf)
  · rw [hall f (hperm.mem_iff.mp hf), List.contains_iff_mem, hrequired, List.mem_flatMap]

/-- Three keys that ask for two names, one of them with a suffix already. -/
def collidingKeys : Place where
  schema := { Schema.empty with
    properties := some [("foo-bar", Schema.empty), ("foo-bar1", Schema.empty),
      ("foo_bar", Schema.empty)]
    required := some ["foo_bar", "other"] }
  path := []

theorem makeStruct_fields_colliding : ∃ w' s earlier,
    outcome (makeStruct ⟨⟨"keys.json", collidingKeys.schema⟩, ∅⟩ (fun _ _ => pure .anything) "Keys"
      collidingKeys) Workshop.empty = (.ok (), w') ∧
    w'.made = .struct s :: earlier ∧ s.fields.keys = ["FooBar", "FooBar1", "FooBar2"] ∧
    (∃! f, f ∈ s.fields.values ∧ f.jsonName = "foo_bar") ∧
    ∀ f ∈ s.fields.values, f.jsonName = "foo_bar" → f.required = true := by
  let run := outcome (makeStruct ⟨⟨"keys.json", collidingKeys.schema⟩, ∅⟩
    (fun _ _ => pure .anything) "Keys" collidingKeys) Workshop.empty
  obtain ⟨⟨⟩, hok⟩ := exists_eq_ok (r := run.1) (by decide +kernel)
  have hrun : run = (.ok (), run.2) := congrArg (·, run.2) hok
  have hkeys : (run.2.declarations.structs.find? "Keys").map (fun s => s.fields.keys) =
      some ["FooBar", "FooBar1", "FooBar2"] := by
    decide +kernel
  obtain ⟨ms, order, _, s, earlier, _, hvisits, hms, hmade, hname, _, _, hone, hall, _, _⟩ :=
    makeStruct_fields hrun
  have hdeclared : run.2.declarations.structs.find? "Keys" = some s := by
    unfold Workshop.declarations
    rw [hmade, ← hname]
    exact Dict.find?_insert_self _ _ _
  rw [hdeclared] at hkeys
  obtain ⟨rest, rfl⟩ := hvisits.exists_cons
  have hkey : "foo_bar" ∈ ms.properties.keys := by
    rw [hms]
    exact ⟨collidingKeys, List.mem_cons_self, by decide⟩
  refine ⟨run.2, s, earlier, hrun, hmade, Option.some.inj hkeys, hone _ hkey, fun f hf hname => ?_⟩
  rw [(hall f hf).2, hname]
  exact ⟨collidingKeys, List.mem_cons_self, by decide⟩

end Work

end SchemaToGo
