import SchemaToGo.Proofs.Declarations
set_option autoImplicit false

/-!
# More documents

Documents that are worked on later leave alone what earlier ones declare.  Names that are taken
stay taken, so every later type is added under a name that nothing had before, and an insertion
under a new name keeps all entries: `ofDocuments_append`.

Normative source: SPEC_FULL.md section 10: documents share one space of names.
-/

namespace SchemaToGo

theorem Entries.mem_of_find? {α : Type} {k : String} {v : α} {es : Entries α}
    (h : Entries.find? k es = some v) : (k, v) ∈ es := by
  induction es with
  | nil => cases h
  | cons e rest ih =>
    simp only [Entries.find?] at h
    split at h
    · next hkey =>
      cases h
      rw [← hkey]
      exact List.mem_cons_self
    · exact List.mem_cons_of_mem _ (ih h)

theorem Dict.mem_keys_of_find? {α : Type} {d : Dict α} {k : String} {v : α}
    (h : d.find? k = some v) : k ∈ d.keys :=
  List.mem_map_of_mem (f := Prod.fst) (Entries.mem_of_find? h)

theorem Dict.exists_find?_of_mem_keys {α : Type} {d : Dict α} {k : String} (h : k ∈ d.keys) :
    ∃ v, d.find? k = some v := by
  have hentries : ∀ es : Entries α, k ∈ es.map Prod.fst → ∃ v, Entries.find? k es = some v := by
    intro es
    induction es with
    | nil => exact nofun
    | cons e rest ih =>
      intro hk
      simp only [Entries.find?]
      split
      · exact ⟨e.2, rfl⟩
      · next hne => exact ih ((List.mem_cons.mp hk).resolve_left fun heq => hne heq.symm)
  exact hentries d.entries h

namespace Declarations

/-- Every type of `d` stands in `d'` too, unchanged and under the same key. -/
structure Within (d d' : Declarations) : Prop where
  structs : ∀ name s, d.structs.find? name = some s → d'.structs.find? name = some s
  aliases : ∀ name a, d.aliases.find? name = some a → d'.aliases.find? name = some a

theorem Within.refl (d : Declarations) : d.Within d := ⟨fun _ _ h => h, fun _ _ h => h⟩

theorem Within.trans {d d' d'' : Declarations} (h : d.Within d') (h' : d'.Within d'') :
    d.Within d'' :=
  ⟨fun name s hs => h'.structs name s (h.structs name s hs),
    fun name a ha => h'.aliases name a (h.aliases name a ha)⟩

/-- A type that is added under a new name replaces none. -/
theorem within_insert {d : Declarations} {e : Declaration}
    (hnew : ∀ x ∈ d.headings, x.name ≠ e.name) : d.Within (d.insert e) := by
  have hstruct : ∀ name s, d.structs.find? name = some s → name ≠ e.name := by
    intro name s hs
    exact hnew ⟨name, true⟩ (mem_headings.mpr (Dict.mem_keys_of_find? hs))
  have halias : ∀ name a, d.aliases.find? name = some a → name ≠ e.name := by
    intro name a ha
    exact hnew ⟨name, false⟩ (mem_headings.mpr (Dict.mem_keys_of_find? ha))
  cases e with
  | struct s =>
    refine ⟨fun name s' hs' => ?_, fun _ _ ha => ha⟩
    exact (Dict.find?_insert_of_ne _ (hstruct name s' hs') _).trans hs'
  | «alias» a =>
    refine ⟨fun _ _ hs => hs, fun name a' ha' => ?_⟩
    exact (Dict.find?_insert_of_ne _ (halias name a' ha') _).trans ha'

/-- Types that are added one after another under new names leave those before them alone. -/
theorem within_ofInserts {made more : List Declaration}
    (hnew : ∀ later e earlier, more = later ++ e :: earlier →
      ∀ x ∈ (ofInserts (earlier ++ made)).headings, x.name ≠ e.name) :
    (ofInserts made).Within (ofInserts (more ++ made)) := by
  induction more with
  | nil => exact .refl _
  | cons e rest ih =>
    have hrest : (ofInserts made).Within (ofInserts (rest ++ made)) := by
      refine ih fun later e' earlier heq => ?_
      exact hnew (e :: later) e' earlier (by rw [heq, List.cons_append])
    exact hrest.trans (within_insert (hnew [] e rest rfl))

end Declarations

/-- What a sound workshop has grown from is still declared in it. -/
theorem Workshop.Grown.within {w w' : Workshop} (h : w.Grown w') (hsound : w'.Sound []) :
    w.declarations.Within w'.declarations := by
  obtain ⟨more, hmade⟩ := h.made
  unfold declarations
  rw [← hmade]
  refine Declarations.within_ofInserts fun later e earlier heq => ?_
  refine hsound.fresh (?_ : w'.made = later ++ e :: (earlier ++ w.made))
  rw [← hmade, heq, List.append_assoc, List.cons_append]

namespace Work

/-- Work on some documents and then on others. -/
theorem outcome_forM_append (earlier later : List Document) (w : Workshop) :
    outcome ((earlier ++ later).forM declareDocument) w =
      outcome (earlier.forM declareDocument >>= fun _ => later.forM declareDocument) w := by
  rw [List.forM_eq_forM, List.forM_append]

theorem ofDocuments_append_error {earlier : List Document} {e : BuildError}
    (h : Declarations.ofDocuments earlier = .error e) (later : List Document) :
    Declarations.ofDocuments (earlier ++ later) = .error e := by
  obtain ⟨w, hw⟩ := ofDocuments_eq_error_iff.mp h
  refine ofDocuments_eq_error_iff.mpr ⟨w, ?_⟩
  rw [outcome_forM_append]
  exact outcome_bind_of_error hw _

/-- What documents declare is declared by any longer list of documents. -/
theorem ofDocuments_append_ok {earlier later : List Document} {d : Declarations}
    (h : Declarations.ofDocuments (earlier ++ later) = .ok d) :
    ∃ d₀, Declarations.ofDocuments earlier = .ok d₀ ∧ d₀.Within d := by
  obtain ⟨w, hw, rfl⟩ := exists_ofDocuments h
  have hrun := ofDocuments_eq_ok_iff.mp hw
  rw [outcome_forM_append] at hrun
  obtain ⟨_, w₀, hearlier, hlater⟩ := outcome_bind_eq_ok.mp hrun
  have hgrown := (Adds.forM declareDocument_adds later).grown hlater
  refine ⟨w₀.declarations, ?_, hgrown.within (sound_of_ofDocuments hw)⟩
  unfold Declarations.ofDocuments
  rw [ofDocuments_eq_ok_iff.mpr hearlier]
  rfl

end Work

/-- More documents after some others change nothing of what the others come to: an error stays the
same error, and what the others declare is declared under the same names. -/
theorem ofDocuments_append (earlier later : List Document) :
    (∀ e, Declarations.ofDocuments earlier = .error e →
      Declarations.ofDocuments (earlier ++ later) = .error e) ∧
    ∀ d, Declarations.ofDocuments (earlier ++ later) = .ok d →
      ∃ d₀, Declarations.ofDocuments earlier = .ok d₀ ∧ d₀.Within d := by
  constructor
  · intro e he
    exact Work.ofDocuments_append_error he later
  · intro d hd
    exact Work.ofDocuments_append_ok hd

/-- A document with a reference that leads nowhere. -/
def Document.astray : Document where
  name := "astray.json"
  schema := { Schema.empty with
    properties := some [("way", { Schema.empty with ref := some "#/definitions/none" })] }

theorem ofDocuments_append_links :
    (∃ e, Declarations.ofDocuments [.astray] = .error e ∧
      Declarations.ofDocuments ([.astray] ++ [.links]) = .error e) ∧
    ∃ d₀ d, Declarations.ofDocuments ([.links] ++ [.links]) = .ok d ∧
      Declarations.ofDocuments [.links] = .ok d₀ ∧ d₀.Within d := by
  have hastray : (Declarations.ofDocuments [.astray]).isOk = false := by decide +kernel
  have hlinks : (Declarations.ofDocuments ([.links] ++ [.links])).isOk = true := by decide +kernel
  constructor
  · cases he : Declarations.ofDocuments [.astray] with
    | ok d => rw [he] at hastray; cases hastray
    | error e => exact ⟨e, rfl, (ofDocuments_append [.astray] [.links]).1 e he⟩
  · cases hd : Declarations.ofDocuments ([.links] ++ [.links]) with
    | error e => rw [hd] at hlinks; cases hlinks
    | ok d =>
      obtain ⟨d₀, hd₀, hwithin⟩ := (ofDocuments_append [.links] [.links]).2 d hd
      exact ⟨d₀, d, rfl, hd₀, hwithin⟩

end SchemaToGo
