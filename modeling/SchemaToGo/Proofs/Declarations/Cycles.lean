import SchemaToGo.Proofs.Document.References
import Mathlib.Logic.Relation
set_option autoImplicit false

/-!
# Cycles of aliases

An alias whose type is the bare name of another alias stands for whatever that one stands for, so a
cycle of such aliases stands for nothing.  SPEC_FULL.md section 10 turns a reference to an alias
into its name, and nothing keeps the work from declaring such a cycle.  `hasAliasCycle_iff` says
when that happens: a document has a cycle of references between schemas that are no structs, or a
schema is called like one of the plain types and is come back to from itself by references and by
schemas of such types.
-/

namespace SchemaToGo

/-! ## Cycles -/

section

variable {α β : Type} {r : α → α → Prop} {s : β → β → Prop}

/-- A path is followed step by step by what it is related to. -/
theorem exists_transGen_of_simulates {R : α → β → Prop}
    (hstep : ∀ a b p, R a p → r a b → ∃ q, R b q ∧ s p q) {a b : α} {p : β} (hp : R a p)
    (h : Relation.TransGen r a b) : ∃ q, R b q ∧ Relation.TransGen s p q := by
  induction h with
  | single hab =>
    obtain ⟨q, hq, hpq⟩ := hstep _ _ _ hp hab
    exact ⟨q, hq, .single hpq⟩
  | tail _ hbc ih =>
    obtain ⟨q, hq, hpq⟩ := ih
    obtain ⟨q', hq', hqq'⟩ := hstep _ _ _ hq hbc
    exact ⟨q', hq', hpq.tail hqq'⟩

/-- Every step of a cycle leads to a point that is on a cycle. -/
theorem transGen_on_cycle {a b : α} (h : Relation.TransGen r a b)
    (hback : Relation.ReflTransGen r b a) :
    Relation.TransGen (fun x y => r x y ∧ Relation.TransGen r y y) a b := by
  induction h with
  | single hab => exact .single ⟨hab, .tail' hback hab⟩
  | tail hab hbc ih =>
    have hcycle := Relation.TransGen.tail (hab.trans_right hback) hbc
    exact (ih (.head hbc hback)).tail ⟨hbc, hcycle⟩

end

namespace Declarations

/-- The type of the first alias is the bare name of the second. -/
def Renames (ds : Declarations) (a b : Alias) : Prop :=
  a ∈ ds.aliases.values ∧ b ∈ ds.aliases.values ∧ a.type = b.name

/-- From some alias the types of aliases lead back to it. -/
def HasAliasCycle (ds : Declarations) : Prop := ∃ a, Relation.TransGen ds.Renames a a

end Declarations

namespace Document

/-- A schema that asks for a name and is no struct refers to another one. -/
def Passes (d : Document) (p q : Place) : Prop :=
  d.AsksName p ∧ p.schema.describesObject = false ∧
    ∃ reference, p.schema.ref = some reference ∧ d.LeadsTo reference q

/-- From some schema references lead back to it, past schemas that are no structs only. -/
def HasReferenceCycle (d : Document) : Prop := ∃ p, Relation.TransGen d.Passes p p

end Document

/-! ## Types that are bare names -/

namespace GoType

/-- The names of the types that hold no other type. -/
def plainNames : List String := ["string", "int", "float64", "bool"]

/-- A type that is written as a word is an alias or one of the plain types. -/
theorem cases_of_isWord {t : GoType} (h : Naming.IsWord t.toText) :
    t = .named t.toText ∨ t ∈ [text, integer, float, boolean] := by
  have hnone : ∀ c ∈ t.toText.toList, c ∉ Go.separators := by
    intro c hc hseparator
    have hchar := Go.isWordChar_of_mem h hc
    rw [Go.isWordChar_of_separator hseparator] at hchar
    cases hchar
  cases t with
  | text => exact .inr (by decide)
  | integer => exact .inr (by decide)
  | float => exact .inr (by decide)
  | boolean => exact .inr (by decide)
  | anything => exact absurd (by decide) (hnone '\x7b' (by decide))
  | struct name => exact absurd (by decide) (hnone '*' (by simp [toText]))
  | named name => exact .inl rfl
  | list element => exact absurd (by decide) (hnone '[' (by simp [toText]))
  | dictionary value => exact absurd (by decide) (hnone '[' (by simp [toText]))

theorem toText_mem_plainNames {t : GoType} (h : t ∈ [text, integer, float, boolean]) :
    t.toText ∈ plainNames :=
  List.mem_map_of_mem (f := toText) h

end GoType

namespace Work

variable {documents : List Document} {d : Document} {scope : Scope} {w w' : Workshop}

/-- Finding a type looks at the schema once, whatever the bound on the rest. -/
theorem exists_typeOf_eq (scope : Scope) : ∃ resolve, typeOf scope = typeWith scope resolve := by
  have hpos : 0 < scope.document.walkBound := Nat.mul_pos (Nat.succ_pos _) (Nat.succ_pos _)
  obtain ⟨n, hn⟩ := Nat.exists_eq_succ_of_ne_zero (Nat.ne_of_gt hpos)
  refine ⟨typeWithin scope n, ?_⟩
  unfold typeOf
  rw [hn]
  rfl

theorem eq_struct_of_inlineStruct {resolve : Resolver} {place : Place} {context : String}
    {type : GoType} (h : outcome (inlineStruct scope resolve place context) w = (.ok type, w')) :
    ∃ name, type = .struct name := by
  unfold inlineStruct at h
  obtain ⟨found, w₁, _, h⟩ := outcome_bind_eq_ok.mp h
  cases found with
  | some name =>
    cases h
    exact ⟨name, rfl⟩
  | none =>
    obtain ⟨name, w₂, _, h⟩ := outcome_bind_eq_ok.mp h
    obtain ⟨_, w₃, _, h⟩ := outcome_bind_eq_ok.mp h
    cases h
    exact ⟨name, rfl⟩

/-- The type of a schema is a bare name only if the schema refers to an alias. -/
theorem target_of_typeOf_named {place : Place} {context name : String}
    (h : outcome (typeOf scope place context) w = (.ok (.named name), w')) :
    ∃ reference t, place.schema.ref = some reference ∧ scope.target reference = .ok t ∧
      t.isStruct = false ∧ t.name = name := by
  obtain ⟨resolve, htypeOf⟩ := exists_typeOf_eq scope
  rw [htypeOf, typeWith_eq] at h
  cases hshape : place.schema.shape with
  | reference text =>
    rw [hshape] at h
    obtain ⟨t, w₁, hfollow, h⟩ := outcome_bind_eq_ok.mp h
    have htarget := Scope.target_of_follow (congrArg Prod.fst hfollow)
    have htype : targetType t = .named name := Except.ok.inj (congrArg Prod.fst h)
    unfold targetType at htype
    split at htype
    · cases htype
    · next halias =>
      cases htype
      exact ⟨text, t, Schema.ref_of_shape hshape, htarget, eq_false_of_ne_true halias, rfl⟩
  | members =>
    rw [hshape] at h
    obtain ⟨_, htype⟩ := eq_struct_of_inlineStruct h
    cases htype
  | plain type =>
    rw [hshape] at h
    cases h
    -- a plain type refers to nothing at all
    exact absurd (Schema.refers_of_shape hshape []) List.not_mem_nil
  | unknown name' =>
    rw [hshape] at h
    cases h
  | list element =>
    rw [hshape] at h
    obtain ⟨_, _, _, h⟩ := outcome_bind_eq_ok.mp h
    cases h
  | dictionary values =>
    rw [hshape] at h
    obtain ⟨_, _, _, h⟩ := outcome_bind_eq_ok.mp h
    cases h

/-- A plain type is that of a schema that says so itself. -/
theorem shape_of_typeOf_plain {place : Place} {context : String} {type : GoType}
    (htype : type ∈ [GoType.text, .integer, .float, .boolean])
    (h : outcome (typeOf scope place context) w = (.ok type, w')) :
    place.schema.shape = .plain type := by
  obtain ⟨resolve, htypeOf⟩ := exists_typeOf_eq scope
  rw [htypeOf, typeWith_eq] at h
  cases hshape : place.schema.shape with
  | reference text =>
    rw [hshape] at h
    obtain ⟨t, _, _, h⟩ := outcome_bind_eq_ok.mp h
    cases h
    unfold targetType at htype
    split at htype <;> simp at htype
  | members =>
    rw [hshape] at h
    obtain ⟨_, rfl⟩ := eq_struct_of_inlineStruct h
    simp at htype
  | plain type' =>
    rw [hshape] at h
    cases h
    rfl
  | unknown name =>
    rw [hshape] at h
    cases h
  | list element =>
    rw [hshape] at h
    obtain ⟨_, _, _, h⟩ := outcome_bind_eq_ok.mp h
    cases h
    simp at htype
  | dictionary values =>
    rw [hshape] at h
    obtain ⟨_, _, _, h⟩ := outcome_bind_eq_ok.mp h
    cases h
    simp at htype

/-- A schema of a plain type has this type. -/
theorem typeOf_of_plain {place : Place} {context : String} {type type' : GoType}
    (hshape : place.schema.shape = .plain type)
    (h : outcome (typeOf scope place context) w = (.ok type', w')) : type' = type := by
  obtain ⟨resolve, htypeOf⟩ := exists_typeOf_eq scope
  rw [htypeOf, typeWith_eq, hshape] at h
  cases h
  rfl

/-- The type of a schema that refers to an alias is the name of the alias. -/
theorem typeOf_of_target {place : Place} {context reference : String} {t : Target} {type : GoType}
    (href : place.schema.ref = some reference) (htarget : scope.target reference = .ok t)
    (halias : t.isStruct = false)
    (h : outcome (typeOf scope place context) w = (.ok type, w')) : type = .named t.name := by
  have hshape : place.schema.shape = .reference reference := by
    unfold Schema.shape
    rw [href]
  obtain ⟨resolve, htypeOf⟩ := exists_typeOf_eq scope
  rw [htypeOf, typeWith_eq, hshape] at h
  obtain ⟨t', w₁, hfollow, h⟩ := outcome_bind_eq_ok.mp h
  have htarget' := Scope.target_of_follow (congrArg Prod.fst hfollow)
  rw [htarget] at htarget'
  cases htarget'
  have htype : targetType t = type := Except.ok.inj (congrArg Prod.fst h)
  rw [← htype]
  unfold targetType
  rw [halias]
  rfl

/-! ## The aliases of a run -/

/-- A sequence of steps that succeeds is taken apart at one of them. -/
theorem outcome_forM_split {γ : Type} {f : γ → Work Unit} {before after : List γ} {x : γ}
    (h : outcome ((before ++ x :: after).forM f) w = (.ok (), w')) :
    ∃ w₁ w₂, outcome (before.forM f) w = (.ok (), w₁) ∧ outcome (f x) w₁ = (.ok (), w₂) ∧
      outcome (after.forM f) w₂ = (.ok (), w') := by
  rw [List.forM_eq_forM, List.forM_append] at h
  obtain ⟨_, w₁, hbefore, hrest⟩ := outcome_bind_eq_ok.mp h
  rw [List.forM_cons] at hrest
  obtain ⟨_, w₂, hx, hafter⟩ := outcome_bind_eq_ok.mp hrest
  exact ⟨w₁, w₂, hbefore, hx, hafter⟩

/-- Finding a type declares structs only. -/
theorem alias_allows (a : Alias) :
    Allows fun w w' => .alias a ∈ w'.made → .alias a ∈ w.made where
  refl _ h := h
  trans h h' hmem := h (h' hmem)
  reserve _ _ h := h
  struct _ _ h := (List.mem_cons.mp h).resolve_left nofun
  nested _ _ h := h

/-- A target adds its own alias at most. -/
theorem declareTarget_alias {t : Target} {a : Alias}
    (h : outcome (declareTarget scope t) w = (.ok (), w')) (hbefore : .alias a ∉ w.made)
    (hafter : .alias a ∈ w'.made) : t.isStruct = false ∧ t.name = a.name := by
  have hresolve := typeOf_leads (alias_allows a) scope
  unfold declareTarget at h
  split at h
  · have hmake : Leads (fun w w' => .alias a ∈ w'.made → .alias a ∈ w.made)
        (makeStruct scope (typeOf scope) t.name t.place) :=
      makeStruct_leads (alias_allows a) hresolve t.name t.place
    have hnone := hmake w
    rw [h] at hnone
    exact absurd (hnone hafter) hbefore
  · next halias =>
    obtain ⟨type, w₁, htype, hdone⟩ := outcome_bind_eq_ok.mp h
    have hnone := hresolve t.place t.name w
    rw [htype] at hnone
    cases hdone
    rcases List.mem_cons.mp hafter with heq | hmade
    · cases heq
      exact ⟨eq_false_of_ne_true halias, rfl⟩
    · exact absurd (hnone hmade) hbefore

/-- A target that is no struct adds an alias with its type. -/
theorem declareTarget_of_alias {t : Target} (halias : t.isStruct = false)
    (h : outcome (declareTarget scope t) w = (.ok (), w')) :
    ∃ type w₁, outcome (typeOf scope t.place t.name) w = (.ok type, w₁) ∧
      .alias ⟨t.name, type.toText⟩ ∈ w'.made := by
  unfold declareTarget at h
  rw [halias] at h
  obtain ⟨type, w₁, htype, hdone⟩ := outcome_bind_eq_ok.mp h
  cases hdone
  exact ⟨type, w₁, htype, List.mem_cons_self⟩

/-- When work on documents succeeds, the scopes that it has opened are done with. -/
theorem Opens.finished (hopens : Opens documents d scope w)
    (h : Workshop.ofDocuments documents = .ok w') : w.Sound (headings scope.targets) ∧
      ∃ w₁, outcome (scope.targets.values.forM (declareTarget scope)) w = (.ok (), w₁) ∧
        w₁.Grown w' := by
  obtain ⟨earlier, later, w₀, rfl, hearlier, hopen⟩ := hopens
  obtain ⟨w₀', w₁, hearlier', hd, hsound, hgrown⟩ := declareDocuments_split h
  rw [hearlier] at hearlier'
  cases hearlier'
  unfold declareDocument at hd
  obtain ⟨scope', w₂, hopen', htargets⟩ := outcome_bind_eq_ok.mp hd
  rw [hopen] at hopen'
  cases hopen'
  exact ⟨openScope_promises hsound hopen, w₁, htargets, hgrown⟩

theorem Opens.hasScope (hopens : Opens documents d scope w) : d.HasScope scope := by
  obtain ⟨_, _, _, _, _, hopen⟩ := hopens
  exact hasScope_of_openScope hopen

theorem exists_opens (h : Workshop.ofDocuments documents = .ok w) (hd : d ∈ documents) :
    ∃ scope w₁, Opens documents d scope w₁ := by
  obtain ⟨earlier, later, rfl⟩ := List.append_of_mem hd
  obtain ⟨w₀, _, hearlier, _⟩ := declareDocuments_split h
  obtain ⟨scope, w₁, hopen⟩ := exists_openScope d w₀
  exact ⟨scope, w₁, earlier, later, w₀, rfl, hearlier, hopen⟩

/-- A target that is no struct has its alias in the end. -/
theorem Opens.exists_alias (hopens : Opens documents d scope w)
    (h : Workshop.ofDocuments documents = .ok w') {t : Target} (ht : t ∈ scope.targets.values)
    (halias : t.isStruct = false) : ∃ type w₁ w₂,
      outcome (typeOf scope t.place t.name) w₁ = (.ok type, w₂) ∧
      .alias ⟨t.name, type.toText⟩ ∈ w'.made := by
  obtain ⟨_, w₃, htargets, hgrown⟩ := hopens.finished h
  obtain ⟨before, after, hvalues⟩ := List.append_of_mem ht
  rw [hvalues] at htargets
  obtain ⟨w₁, w₄, _, hdeclare, hafter⟩ := outcome_forM_split htargets
  obtain ⟨type, w₂, htype, hmade⟩ := declareTarget_of_alias halias hdeclare
  have hrest := (Adds.forM (declareTarget_adds scope) after).grown hafter
  exact ⟨type, w₁, w₂, htype, (hrest.trans hgrown).made.subset hmade⟩

/-- Every alias is that of a target. -/
theorem exists_opens_of_alias (h : Workshop.ofDocuments documents = .ok w) {a : Alias}
    (ha : .alias a ∈ w.made) : ∃ d ∈ documents, ∃ scope w₁, Opens documents d scope w₁ ∧
      ∃ t ∈ scope.targets.values, t.isStruct = false ∧ t.name = a.name := by
  obtain ⟨earlier, d, later, w₀, w₁, rfl, hearlier, hd, hnot, hmade⟩ :=
    exists_step_of_forM (P := fun w => .alias a ∈ w.made) (ofDocuments_eq_ok_iff.mp h)
      List.not_mem_nil ha
  unfold declareDocument at hd
  obtain ⟨scope, w₂, hopen, htargets⟩ := outcome_bind_eq_ok.mp hd
  obtain ⟨_, _, _, hsame⟩ := openScope_sound hopen
  rw [← hsame] at hnot
  obtain ⟨before, t, after, w₃, w₄, hvalues, _, hdeclare, hnot', hmade'⟩ :=
    exists_step_of_forM (P := fun w => .alias a ∈ w.made) htargets hnot hmade
  refine ⟨d, by simp, scope, w₂, ⟨earlier, later, w₀, rfl, hearlier, hopen⟩, t, ?_,
    declareTarget_alias hdeclare hnot' hmade'⟩
  rw [hvalues]
  simp

theorem Opens.nodup_names (hopens : Opens documents d scope w)
    (h : Workshop.ofDocuments documents = .ok w') :
    (scope.targets.values.map Target.name).Nodup := by
  have hdistinct := (hopens.finished h).1.distinct
  unfold Workshop.known headings at hdistinct
  rw [List.map_append, List.map_map] at hdistinct
  have htargets := (List.nodup_append.mp hdistinct).2.1
  rw [List.map_map] at htargets
  exact htargets

end Work

namespace Workshop.Sound

variable {w : Workshop}

/-- What is declared is determined by its name. -/
theorem eq_of_name (h : w.Sound []) {e e' : Declaration} (he : e ∈ w.made) (he' : e' ∈ w.made)
    (hname : e.name = e'.name) : e = e' := by
  have hdistinct := h.distinct
  rw [known_nil, List.map_map] at hdistinct
  refine List.inj_on_of_nodup_map hdistinct he he' ?_
  rw [Function.comp, Function.comp, Declaration.name_heading, Declaration.name_heading, hname]

theorem alias_mem_values (h : w.Sound []) {a : Alias} (ha : .alias a ∈ w.made) :
    a ∈ w.declarations.aliases.values := by
  obtain ⟨later, earlier, hmade⟩ := List.append_of_mem ha
  have hwithin : (Declarations.ofInserts (.alias a :: earlier)).Within w.declarations := by
    unfold declarations
    rw [hmade]
    refine Declarations.within_ofInserts fun later' e earlier' heq => ?_
    refine h.fresh (?_ : w.made = later' ++ e :: (earlier' ++ .alias a :: earlier))
    rw [hmade, heq, List.append_assoc, List.cons_append]
  have hfind : (Declarations.ofInserts (.alias a :: earlier)).aliases.find? a.name = some a :=
    Dict.find?_insert_self _ _ _
  exact Entries.mem_values_of_find? (hwithin.aliases _ _ hfind)

end Workshop.Sound

/-! ## Cycles of aliases and of references -/

/-- The alias is that of the schema. -/
def Scope.Declares (scope : Scope) (a : Alias) (p : Place) : Prop :=
  ∃ t ∈ scope.targets.values, t.place = p ∧ t.isStruct = false ∧ t.name = a.name

namespace Work

variable {documents : List Document} {d : Document} {scope : Scope} {w w' : Workshop}

/-- An alias that stands for another one is that of a schema with a reference, or it is of a plain
type and the other one is called like this type. -/
theorem cases_of_renames (hopens : Opens documents d scope w)
    (h : Workshop.ofDocuments documents = .ok w') {a b : Alias} {t : Target}
    (ht : t ∈ scope.targets.values) (halias : t.isStruct = false) (hname : t.name = a.name)
    (hrenames : w'.declarations.Renames a b) :
    (∃ t' ∈ scope.targets.values, t'.isStruct = false ∧ t'.name = b.name ∧
      d.Passes t.place t'.place) ∨
    b.name ∈ GoType.plainNames ∧ ∃ type, t.place.schema.shape = .plain type ∧
      type.toText = b.name := by
  obtain ⟨ha, hb, htype⟩ := hrenames
  have hsound := sound_of_ofDocuments h
  have hscope := hopens.hasScope
  obtain ⟨type, w₁, w₂, hfound, hmade⟩ := hopens.exists_alias h ht halias
  have hsame : Declaration.alias a = .alias ⟨t.name, type.toText⟩ :=
    hsound.eq_of_name (Declarations.alias_mem_of_mem_values ha) hmade hname.symm
  cases hsame
  have hword := hsound.isWord_of_made (Declarations.alias_mem_of_mem_values hb)
  rw [show Declaration.name (.alias b) = type.toText from htype.symm] at hword
  rcases GoType.cases_of_isWord hword with hnamed | hplain
  · rw [hnamed] at hfound
    obtain ⟨reference, t', href, htarget, halias', hname'⟩ := target_of_typeOf_named hfound
    refine .inl ⟨t', Scope.mem_targets_of_target htarget, halias', hname'.trans htype, ?_⟩
    exact ⟨hscope.asksName ht, halias, reference, href, hscope.leadsTo_of_target htarget⟩
  · refine .inr ⟨?_, type, shape_of_typeOf_plain hplain hfound, htype⟩
    rw [← htype]
    exact GoType.toText_mem_plainNames hplain

/-- An alias that stands for another one is that of a schema with a reference, unless the other one
is called like a plain type. -/
theorem passes_of_renames (hopens : Opens documents d scope w)
    (h : Workshop.ofDocuments documents = .ok w') {a b : Alias} {p : Place}
    (hp : scope.Declares a p) (hrenames : w'.declarations.Renames a b)
    (hplain : b.name ∉ GoType.plainNames) : ∃ q, scope.Declares b q ∧ d.Passes p q := by
  obtain ⟨t, ht, rfl, halias, hname⟩ := hp
  rcases cases_of_renames hopens h ht halias hname hrenames with
    ⟨t', ht', halias', hname', hpasses⟩ | ⟨hmem, _⟩
  · exact ⟨t'.place, ⟨t', ht', rfl, halias', hname'⟩, hpasses⟩
  · exact absurd hmem hplain

/-- A cycle of aliases that passes through no alias called like a plain type is made by a cycle of
references. -/
theorem hasReferenceCycle_of_renames (h : Workshop.ofDocuments documents = .ok w) {a : Alias}
    (hcycle : Relation.TransGen w.declarations.Renames a a)
    (hplain : ∀ b, Relation.TransGen w.declarations.Renames b b → b.name ∉ GoType.plainNames) :
    ∃ d ∈ documents, d.HasReferenceCycle := by
  obtain ⟨b, ⟨ha, _⟩, _⟩ := Relation.TransGen.head'_iff.mp hcycle
  obtain ⟨d, hd, scope, w₁, hopens, t, ht, halias, hname⟩ :=
    exists_opens_of_alias h (Declarations.alias_mem_of_mem_values ha)
  obtain ⟨q, ⟨t', ht', rfl, _, hname'⟩, hpath⟩ :=
    exists_transGen_of_simulates (R := scope.Declares) (s := d.Passes) (p := t.place)
      (fun a b p hp hstep => passes_of_renames hopens h hp hstep.1 (hplain b hstep.2))
      ⟨t, ht, rfl, halias, hname⟩ (transGen_on_cycle hcycle .refl)
  have hsame : t' = t :=
    List.inj_on_of_nodup_map (hopens.nodup_names h) ht' ht (hname'.trans hname.symm)
  rw [hsame] at hpath
  exact ⟨d, hd, t.place, hpath⟩

/-- A reference between schemas that are no structs makes the alias of the first stand for that of
the second. -/
theorem renames_of_passes (hkeyed : d.schema.Keyed) (hopens : Opens documents d scope w)
    (h : Workshop.ofDocuments documents = .ok w') {a : Alias} {p q : Place}
    (ha : .alias a ∈ w'.made) (hp : scope.Declares a p) (hpasses : d.Passes p q)
    (hq : q.schema.describesObject = false) :
    ∃ b, (.alias b ∈ w'.made ∧ scope.Declares b q) ∧ w'.declarations.Renames a b := by
  obtain ⟨t, ht, rfl, halias, hname⟩ := hp
  obtain ⟨_, _, reference, href, hleads⟩ := hpasses
  have hsound := sound_of_ofDocuments h
  obtain ⟨t', htarget, rfl⟩ := hopens.hasScope.exists_target_at hkeyed hleads
  have ht' := Scope.mem_targets_of_target htarget
  obtain ⟨type, w₁, w₂, hfound, hmade⟩ := hopens.exists_alias h ht halias
  obtain ⟨type', _, _, _, hmade'⟩ := hopens.exists_alias h ht' hq
  have hsame : Declaration.alias a = .alias ⟨t.name, type.toText⟩ :=
    hsound.eq_of_name ha hmade hname.symm
  cases hsame
  cases typeOf_of_target href htarget hq hfound
  refine ⟨⟨t'.name, type'.toText⟩, ⟨hmade', t', ht', rfl, hq, rfl⟩, ?_⟩
  exact ⟨hsound.alias_mem_values ha, hsound.alias_mem_values hmade', rfl⟩

/-- A cycle of references makes a cycle of aliases. -/
theorem hasAliasCycle_of_passes (hkeyed : d.schema.Keyed) (hd : d ∈ documents)
    (h : Workshop.ofDocuments documents = .ok w) {p : Place}
    (hcycle : Relation.TransGen d.Passes p p) : w.declarations.HasAliasCycle := by
  have hplain : ∀ q, Relation.TransGen d.Passes q q → q.schema.describesObject = false := by
    intro q hq
    obtain ⟨_, ⟨_, hobject, _⟩, _⟩ := Relation.TransGen.head'_iff.mp hq
    exact hobject
  obtain ⟨scope, w₁, hopens⟩ := exists_opens h hd
  have hscope := hopens.hasScope
  obtain ⟨_, ⟨hasks, hobject, _⟩, _⟩ := Relation.TransGen.head'_iff.mp hcycle
  obtain ⟨t, ht, rfl⟩ := hscope.exists_target_of_asksName hkeyed hasks
  obtain ⟨type, _, _, _, hmade⟩ := hopens.exists_alias h ht hobject
  obtain ⟨b, ⟨hb, t', ht', hplace, _, hname⟩, hpath⟩ :=
    exists_transGen_of_simulates (s := w.declarations.Renames) (p := ⟨t.name, type.toText⟩)
      (R := fun p a => .alias a ∈ w.made ∧ scope.Declares a p)
      (fun p q a ha hstep =>
        renames_of_passes hkeyed hopens h ha.1 ha.2 hstep.1 (hplain q hstep.2))
      ⟨hmade, t, ht, rfl, hobject, rfl⟩ (transGen_on_cycle hcycle .refl)
  have hsame : t' = t := hscope.eq_of_path ht' ht (congrArg Place.path hplace)
  rw [hsame] at hname
  have hback : Declaration.alias b = .alias ⟨t.name, type.toText⟩ :=
    (sound_of_ofDocuments h).eq_of_name hb hmade hname.symm
  cases hback
  exact ⟨_, hpath⟩

/-! ## Cycles through plain types -/

/-- A schema of the documents that is no struct is called `name`, and what it says itself leads to
another such schema, which is called `name'`: it refers to that schema, or it is of a plain type and
that schema is called like this type. -/
inductive StandsFor (documents : List Document) : String → String → Prop
  | reference {d : Document} {scope : Scope} {w : Workshop} {t t' : Target}
      (opens : Opens documents d scope w) (mem : t ∈ scope.targets.values)
      (mem' : t' ∈ scope.targets.values) (passes : d.Passes t.place t'.place)
      (noStruct : t'.isStruct = false) : StandsFor documents t.name t'.name
  | plain {d d' : Document} {scope scope' : Scope} {w w' : Workshop} {t t' : Target}
      {type : GoType} (opens : Opens documents d scope w) (mem : t ∈ scope.targets.values)
      (noStruct : t.isStruct = false) (shape : t.place.schema.shape = .plain type)
      (opens' : Opens documents d' scope' w') (mem' : t' ∈ scope'.targets.values)
      (noStruct' : t'.isStruct = false) (eponym : type.toText = t'.name) :
      StandsFor documents t.name t'.name

theorem Opens.mem (hopens : Opens documents d scope w) : d ∈ documents := by
  obtain ⟨_, _, _, rfl, _⟩ := hopens
  simp

theorem StandsFor.exists_alias {name name' : String} (hstands : StandsFor documents name name')
    (h : Workshop.ofDocuments documents = .ok w) :
    ∃ a : Alias, .alias a ∈ w.made ∧ a.name = name := by
  cases hstands with
  | reference hopens hmem _ hpasses _ =>
    obtain ⟨type, _, _, _, hmade⟩ := hopens.exists_alias h hmem hpasses.2.1
    exact ⟨_, hmade, rfl⟩
  | plain hopens hmem halias _ _ _ _ _ =>
    obtain ⟨type, _, _, _, hmade⟩ := hopens.exists_alias h hmem halias
    exact ⟨_, hmade, rfl⟩

/-- An alias stands for another one because their schemas do. -/
theorem standsFor_of_renames (h : Workshop.ofDocuments documents = .ok w) {a b : Alias}
    (hrenames : w.declarations.Renames a b) : StandsFor documents a.name b.name := by
  obtain ⟨d, _, scope, w₁, hopens, t, ht, halias, hname⟩ :=
    exists_opens_of_alias h (Declarations.alias_mem_of_mem_values hrenames.1)
  rcases cases_of_renames hopens h ht halias hname hrenames with
    ⟨t', ht', halias', hname', hpasses⟩ | ⟨_, type, hshape, htext⟩
  · rw [← hname, ← hname']
    exact .reference hopens ht ht' hpasses halias'
  · obtain ⟨d', _, scope', w₂, hopens', t', ht', halias', hname'⟩ :=
      exists_opens_of_alias h (Declarations.alias_mem_of_mem_values hrenames.2.1)
    rw [← hname', ← hname]
    exact .plain hopens ht halias hshape hopens' ht' halias' (htext.trans hname'.symm)

/-- The alias of a schema stands for that of the schema that it leads to. -/
theorem renames_of_standsFor (hkeyed : ∀ d ∈ documents, d.schema.Keyed)
    (h : Workshop.ofDocuments documents = .ok w) {a : Alias} {name name' : String}
    (ha : .alias a ∈ w.made) (hname : a.name = name) (hstands : StandsFor documents name name') :
    ∃ b : Alias, (.alias b ∈ w.made ∧ b.name = name') ∧ w.declarations.Renames a b := by
  have hsound := sound_of_ofDocuments h
  cases hstands with
  | reference hopens hmem hmem' hpasses halias' =>
    obtain ⟨b, ⟨hb, t'', ht'', hplace, _, hname'⟩, hrenames⟩ :=
      renames_of_passes (hkeyed _ hopens.mem) hopens h ha
        ⟨_, hmem, rfl, hpasses.2.1, hname.symm⟩ hpasses halias'
    have hsame := hopens.hasScope.eq_of_path ht'' hmem' (congrArg Place.path hplace)
    rw [hsame] at hname'
    exact ⟨b, ⟨hb, hname'.symm⟩, hrenames⟩
  | plain hopens hmem halias hshape hopens' hmem' halias' heponym =>
    obtain ⟨type, _, _, hfound, hmade⟩ := hopens.exists_alias h hmem halias
    obtain ⟨type', _, _, _, hmade'⟩ := hopens'.exists_alias h hmem' halias'
    cases hsound.eq_of_name ha hmade hname
    refine ⟨_, ⟨hmade', rfl⟩, hsound.alias_mem_values hmade, hsound.alias_mem_values hmade', ?_⟩
    rw [typeOf_of_plain hshape hfound]
    exact heponym

/-- A cycle of schemas makes a cycle of aliases. -/
theorem hasAliasCycle_of_standsFor (hkeyed : ∀ d ∈ documents, d.schema.Keyed)
    (h : Workshop.ofDocuments documents = .ok w) {name : String}
    (hcycle : Relation.TransGen (StandsFor documents) name name) :
    w.declarations.HasAliasCycle := by
  obtain ⟨_, hfirst, _⟩ := Relation.TransGen.head'_iff.mp hcycle
  obtain ⟨a, ha, hname⟩ := hfirst.exists_alias h
  obtain ⟨b, ⟨hb, hname'⟩, hpath⟩ :=
    exists_transGen_of_simulates (s := w.declarations.Renames) (p := a)
      (R := fun name a => .alias a ∈ w.made ∧ a.name = name)
      (fun name name' a ha hstands => renames_of_standsFor hkeyed h ha.1 ha.2 hstands)
      ⟨ha, hname⟩ hcycle
  cases (sound_of_ofDocuments h).eq_of_name hb ha (hname'.trans hname.symm)
  exact ⟨a, hpath⟩

end Work

/-- What documents declare has a cycle of aliases exactly if one of the documents has a cycle of
references between schemas that are no structs, or if a schema that is called like a plain type is
come back to from itself, by references and by schemas of plain types that others are called like.
The keys of definitions differ in every schema that is read. -/
theorem hasAliasCycle_iff {documents : List Document} (hkeyed : ∀ d ∈ documents, d.schema.Keyed)
    {ds : Declarations} (h : Declarations.ofDocuments documents = .ok ds) :
    ds.HasAliasCycle ↔ (∃ d ∈ documents, d.HasReferenceCycle) ∨
      ∃ name ∈ GoType.plainNames, Relation.TransGen (Work.StandsFor documents) name name := by
  obtain ⟨w, hw, rfl⟩ := exists_ofDocuments h
  constructor
  · rintro ⟨a, hcycle⟩
    by_cases hplain : ∃ b, Relation.TransGen w.declarations.Renames b b ∧
        b.name ∈ GoType.plainNames
    · obtain ⟨b, hb, hmem⟩ := hplain
      refine .inr ⟨b.name, hmem, ?_⟩
      exact hb.lift Alias.name fun _ _ => Work.standsFor_of_renames hw
    · refine .inl (Work.hasReferenceCycle_of_renames hw hcycle fun b hb hmem => ?_)
      exact hplain ⟨b, hb, hmem⟩
  · rintro (⟨d, hd, p, hcycle⟩ | ⟨name, _, hcycle⟩)
    · exact Work.hasAliasCycle_of_passes (hkeyed d hd) hd hw hcycle
    · exact Work.hasAliasCycle_of_standsFor hkeyed hw hcycle

/-- A definition that only refers to itself. -/
def Document.loop : Document where
  name := "schema.json"
  schema := { Schema.empty with
    definitions := some [("a", { Schema.empty with ref := some "#/definitions/a" })] }

/-- A type is declared as itself. -/
theorem hasAliasCycle_loop :
    ∃ ds, Declarations.ofDocuments [.loop] = .ok ds ∧ ds.HasAliasCycle := by
  have hrun : (match Declarations.ofDocuments [.loop] with
      | .ok ds => decide ((⟨"A", "A"⟩ : Alias) ∈ ds.aliases.values)
      | .error _ => false) = true := by decide +kernel
  split at hrun
  · next ds heq =>
    have hmem : (⟨"A", "A"⟩ : Alias) ∈ ds.aliases.values := of_decide_eq_true hrun
    exact ⟨ds, heq, ⟨"A", "A"⟩, .single ⟨hmem, hmem, rfl⟩⟩
  · cases hrun

theorem hasAliasCycle_iff_loop : Document.loop.schema.Keyed ∧
    ∃ ds, Declarations.ofDocuments [.loop] = .ok ds ∧
      (ds.HasAliasCycle ↔ (∃ d ∈ [Document.loop], d.HasReferenceCycle) ∨
        ∃ name ∈ GoType.plainNames,
          Relation.TransGen (Work.StandsFor [.loop]) name name) := by
  have hkeyed : Document.loop.schema.Keyed := by
    constructor <;> decide
  have hok : (Declarations.ofDocuments [.loop]).isOk = true := by decide +kernel
  cases h : Declarations.ofDocuments [.loop] with
  | error e => rw [h] at hok; cases hok
  | ok ds =>
    exact ⟨hkeyed, ds, rfl,
      hasAliasCycle_iff (fun d hd => List.mem_singleton.mp hd ▸ hkeyed) h⟩

/-- A definition whose name comes out as that of its type. -/
def Document.eponym : Document where
  name := "schema.json"
  schema := { Schema.empty with
    definitions := some [("²string", { Schema.empty with type := some (.single "string") })] }

-- No reference is needed for a cycle through an alias that is called like a plain type.
example : (match Declarations.ofDocuments [.eponym] with
    | .ok ds => decide ((⟨"string", "string"⟩ : Alias) ∈ ds.aliases.values)
    | .error _ => false) = true := by decide +kernel

end SchemaToGo
