import SchemaToGo.Proofs.Workshop.Keeping
set_option autoImplicit false

/-!
# Declaring the targets of documents

Opening the scope of a document promises its targets, and declaring them keeps these promises, so
the workshop is sound before and after every document with nothing left promised.
-/

namespace SchemaToGo

namespace Workshop

/-- A name that is taken and then not used for a type does no harm. -/
theorem Sound.take {w : Workshop} {promised : List Heading} (h : w.Sound promised) {base : String}
    (hbase : Naming.IsWord base) :
    ({ w with reserved := Naming.freeName w.reserved base :: w.reserved } : Workshop).Sound
      promised := by
  refine ⟨h.distinct, fun x hx => List.mem_cons_of_mem _ (h.reserved x hx), fun name hname => ?_,
    h.made, h.underWay⟩
  rcases List.mem_cons.mp hname with rfl | hname
  · exact Naming.isWord_freeName hbase _
  · exact h.words name hname

/-- Promises to which nothing refers yet may be dropped. -/
theorem Sound.drop {w : Workshop} {promised promised' : List Heading} (hnone : w.Sound [])
    (h : w.Sound promised) (hsub : promised'.Subperm promised) : w.Sound promised' := by
  have hknown : (w.known promised').Subperm (w.known promised) :=
    (List.Subperm.refl _).append hsub
  have hmade : w.known [] ⊆ w.known promised' :=
    fun x hx => List.mem_append_left _ ((List.mem_append.mp hx).resolve_right List.not_mem_nil)
  refine ⟨?_, fun x hx => h.reserved x (hknown.subset hx), h.words,
    fun e he => (hnone.made e he).mono hmade, fun e he => hmade (hnone.underWay e he)⟩
  obtain ⟨kept, hperm, hkept⟩ := hknown
  refine (hperm.map Heading.name).nodup_iff.mp ?_
  exact h.distinct.sublist (hkept.map Heading.name)

end Workshop

namespace Work

/-- What the targets of a scope are announced by. -/
def headings (targets : Dict Target) : List Heading := targets.values.map Target.heading

theorem isWord_of_mem_namedPlaces {d : Document} {e : Place × String} (h : e ∈ d.namedPlaces) :
    Naming.IsWord e.2 := by
  rcases List.mem_append.mp h with h | h
  · split at h
    · rw [List.mem_singleton.mp h]
      exact Naming.isWord_forType _ _
    · cases h
  · obtain ⟨definition, _, rfl⟩ := List.mem_map.mp h
    dsimp only
    exact Naming.isWord_forType none definition.key

/-- Opening a scope promises its targets. -/
theorem openScope_promises {d : Document} {scope : Scope} {w w' : Workshop} (h : w.Sound [])
    (hrun : outcome (openScope d) w = (.ok scope, w')) :
    w'.Sound (headings scope.targets) := by
  have hboth := openScope_induction
    (fun _ targets w' => w'.Sound [] ∧ w'.Sound (headings targets)) hrun ⟨h, h⟩ (by
      rintro before e after targets w hplaces ⟨hnone, hall⟩
      have hword := isWord_of_mem_namedPlaces (e := e) (by rw [hplaces]; simp)
      have hall' := hall.reserve hword e.1.schema.describesObject
      refine ⟨hnone.take hword, (hnone.take hword).drop hall' ?_⟩
      obtain ⟨kept, hperm, hkept⟩ := targets.values_insert_perm (Pointer.ofSegments e.1.path)
        ⟨Naming.freeName w.reserved e.2, e.1⟩
      refine (hperm.map Target.heading).subperm.trans ?_
      exact ((hkept.map Target.heading).cons_cons _).subperm)
  exact hboth.2.2

/-! ## Work that only adds -/

theorem declareTarget_adds (scope : Scope) (t : Target) : Adds (declareTarget scope t) := by
  unfold declareTarget
  split
  · exact makeStruct_leads grown_allows (typeOf_adds scope) t.name t.place
  · exact (typeOf_adds scope t.place t.name).bind fun _ => .declare _

theorem openScope_adds (d : Document) : Adds (openScope d) := by
  unfold openScope
  refine Adds.bind (Adds.foldlM (fun targets e => ?_) _ _) fun _ => .pure _
  exact (Adds.reserve e.2).bind fun _ => .pure _

theorem declareDocument_adds (d : Document) : Adds (declareDocument d) :=
  (openScope_adds d).bind fun scope => Adds.forM (declareTarget_adds scope) _

/-! ## Keeping the promises of a document -/

section

variable {scope : Scope} {w w' : Workshop}

/-- Declaring a target keeps its promise. -/
theorem declareTarget_sound {t : Target} {promised : List Heading}
    (h : w.Sound (t.heading :: promised))
    (hknown : headings scope.targets ⊆ w.known (t.heading :: promised))
    (hrun : outcome (declareTarget scope t) w = (.ok (), w')) :
    w'.Sound promised ∧ t.heading ∈ w'.made.map Declaration.heading := by
  have hresolve : (typeOf scope).Sound (headings scope.targets) :=
    typeOf_sound fun t ht => List.mem_map_of_mem ht
  unfold declareTarget at hrun
  split at hrun
  · next hstruct =>
    have hheading : t.heading = ⟨t.name, true⟩ := congrArg (Heading.mk t.name) hstruct
    rw [hheading] at h hknown ⊢
    exact makeStruct_sound hresolve h hknown hrun
  · next halias =>
    obtain ⟨type, w₁, htype, hdone⟩ := outcome_bind_eq_ok.mp hrun
    cases hdone
    have hheading : t.heading = (Declaration.alias ⟨t.name, type.toText⟩).heading :=
      congrArg (Heading.mk t.name) (Bool.eq_false_of_not_eq_true halias)
    rw [hheading] at h hknown ⊢
    obtain ⟨hw₁, ht⟩ := hresolve.keeps h hknown htype
    exact ⟨hw₁.declare ⟨type, rfl, ht⟩, List.mem_cons_self⟩

/-- Declaring targets keeps their promises. -/
theorem declareTargets_sound {ts : List Target} (h : w.Sound (ts.map Target.heading))
    (hknown : headings scope.targets ⊆ w.known (ts.map Target.heading))
    (hrun : outcome (ts.forM (declareTarget scope)) w = (.ok (), w')) :
    w'.Sound [] ∧ ∀ t ∈ ts, t.heading ∈ w'.made.map Declaration.heading := by
  induction ts generalizing w with
  | nil =>
    cases hrun
    exact ⟨h, nofun⟩
  | cons t rest ih =>
    obtain ⟨_, w₁, hfirst, hrest⟩ := outcome_bind_eq_ok.mp hrun
    obtain ⟨hw₁, hdeclared⟩ := declareTarget_sound h hknown hfirst
    have hgrown := (declareTarget_adds scope t).grown hfirst
    have hknown₁ : headings scope.targets ⊆ w₁.known (rest.map Target.heading) := by
      intro x hx
      rcases List.mem_append.mp (hgrown.known_subset _ (hknown hx)) with hx | hx
      · exact List.mem_append_left _ hx
      · rcases List.mem_cons.mp hx with rfl | hx
        · exact List.mem_append_left _ hdeclared
        · exact List.mem_append_right _ hx
    obtain ⟨hw', hall⟩ := ih hw₁ hknown₁ hrest
    refine ⟨hw', fun s hs => ?_⟩
    rcases List.mem_cons.mp hs with rfl | hs
    · have hgrown' := (Adds.forM (declareTarget_adds scope) rest).grown hrest
      exact List.map_subset _ hgrown'.made.subset hdeclared
    · exact hall s hs

end

/-- Declaring a document leaves nothing promised, and all its targets are declared. -/
theorem declareDocument_sound {d : Document} {w w' : Workshop} (h : w.Sound [])
    (hrun : outcome (declareDocument d) w = (.ok (), w')) :
    w'.Sound [] ∧ ∃ scope w₁, outcome (openScope d) w = (.ok scope, w₁) ∧ w₁.Grown w' ∧
      ∀ t ∈ scope.targets.values, t.heading ∈ w'.made.map Declaration.heading := by
  unfold declareDocument at hrun
  obtain ⟨scope, w₁, hopen, htargets⟩ := outcome_bind_eq_ok.mp hrun
  have hgrown := (Adds.forM (declareTarget_adds scope) scope.targets.values).grown htargets
  obtain ⟨hw', hall⟩ := declareTargets_sound (openScope_promises h hopen)
    (fun x hx => List.mem_append_right _ hx) htargets
  exact ⟨hw', scope, w₁, hopen, hgrown, hall⟩

/-- The workshop is sound after any documents. -/
theorem declareDocuments_sound {documents : List Document} {w w' : Workshop} (h : w.Sound [])
    (hrun : outcome (documents.forM declareDocument) w = (.ok (), w')) : w'.Sound [] := by
  induction documents generalizing w with
  | nil =>
    cases hrun
    exact h
  | cons d rest ih =>
    obtain ⟨_, w₁, hfirst, hrest⟩ := outcome_bind_eq_ok.mp hrun
    exact ih (declareDocument_sound h hfirst).1 hrest

theorem sound_of_ofDocuments {documents : List Document} {w : Workshop}
    (h : Workshop.ofDocuments documents = .ok w) : w.Sound [] :=
  declareDocuments_sound Workshop.Sound.empty (ofDocuments_eq_ok_iff.mp h)

end Work

end SchemaToGo
