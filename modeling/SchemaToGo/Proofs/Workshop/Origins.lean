import SchemaToGo.Proofs.Workshop.Promises
import Mathlib.Logic.Relation
set_option autoImplicit false

/-!
# What types are declared for

Every type that is declared is that of a target, or the struct of a schema with members that a call
comes to while the struct is not under way: `declaredFor_of_made`.  So nothing is declared that no
schema asks for (SPEC_FULL.md section 10); in particular, a root that describes no type gets none.

Work is traced in the calls that it makes.  Whatever it declares is declared by itself or in the
answer to one of its calls, and `Traced` passes from steps to sequences of steps.
-/

namespace SchemaToGo

namespace Work

variable {α β : Type}

/-! ## Traced work -/

/-- With a resolver that breaks off at a call, the work comes to the same end or is broken off.
Whatever it declares is of its own kind or declared in the answer to a call that it makes. -/
structure Traced (resolve : Resolver) (own : Declaration → Prop) (w : Workshop)
    (work : Resolver → Work α) : Prop where
  breaks : ∀ {other q last}, BreaksOff resolve other q last →
    outcome (work other) w = outcome (work resolve) w ∨ Broken last (outcome (work other) w)
  made : ∀ e ∈ (outcome (work resolve) w).2.made, e ∈ w.made ∨ own e ∨
    ∃ q, Makes work resolve w q ∧ e ∈ (answer resolve q).2.made ∧ e ∉ q.workshop.made

section

variable {resolve : Resolver} {own : Declaration → Prop} {w : Workshop}

/-- Work that makes no calls and declares nothing. -/
theorem Traced.of_quiet {work : Work α} (h : (outcome work w).2.made = w.made) :
    Traced resolve own w fun _ => work :=
  ⟨fun _ => .inl rfl, fun _ he => .inl (h ▸ he)⟩

theorem Traced.pure (a : α) : Traced resolve own w fun _ => (pure a : Work α) := .of_quiet rfl

theorem Traced.declare {e : Declaration} (h : own e) :
    Traced resolve own w fun _ => declare e := by
  refine ⟨fun _ => .inl rfl, fun e' he' => ?_⟩
  rcases List.mem_cons.mp he' with rfl | he'
  · exact .inr (.inl h)
  · exact .inl he'

theorem Traced.call (place : Place) (context : String) :
    Traced resolve own w fun r => r place context := by
  constructor
  · intro other q last hother
    by_cases hq : (⟨place, context, w⟩ : Call) = q
    · subst hq
      exact .inr (Makes.call _ other last hother)
    · exact .inl (hother.same _ hq)
  · intro e he
    by_cases hbefore : e ∈ w.made
    · exact .inl hbefore
    · exact .inr (.inr ⟨⟨place, context, w⟩, Makes.call _, he, hbefore⟩)

theorem Traced.mono {own' : Declaration → Prop} {work : Resolver → Work α}
    (h : Traced resolve own w work) (himp : ∀ e, own e → own' e) : Traced resolve own' w work :=
  ⟨h.breaks, fun e he => (h.made e he).imp_right (Or.imp_left (himp e))⟩

/-- Traced work goes on with traced work. -/
theorem Traced.bind {step : Resolver → Work α} {next : Resolver → α → Work β}
    (h : Traced resolve own w step)
    (hnext : ∀ a w₁, outcome (step resolve) w = (.ok a, w₁) →
      Traced resolve own w₁ fun r => next r a) :
    Traced resolve own w fun r => step r >>= next r := by
  cases hrun : outcome (step resolve) w with
  | mk result w₁ =>
    have hmade := h.made
    rw [hrun] at hmade
    cases result with
    | error e =>
      constructor
      · intro other q last hother
        rcases h.breaks hother with hsame | hbroken
        · exact .inl (by rw [outcome_bind, outcome_bind, hsame, hrun])
        · exact .inr (hbroken.bind _)
      · intro e' he'
        rw [outcome_bind, hrun] at he'
        refine (hmade e' he').imp_right (Or.imp_right ?_)
        rintro ⟨q, hq, hanswer⟩
        exact ⟨q, hq.bind next, hanswer⟩
    | ok a =>
      have hrest := hnext a w₁ hrun
      constructor
      · intro other q last hother
        rcases h.breaks hother with hsame | hbroken
        · rw [outcome_bind, outcome_bind, hsame, hrun]
          exact hrest.breaks hother
        · exact .inr (hbroken.bind _)
      · intro e he
        rw [outcome_bind, hrun] at he
        rcases hrest.made e he with hbefore | hown | ⟨q, hq, hanswer⟩
        · refine (hmade e hbefore).imp_right (Or.imp_right ?_)
          rintro ⟨q, hq, hanswer⟩
          exact ⟨q, hq.bind next, hanswer⟩
        · exact .inr (.inl hown)
        · refine .inr (.inr ⟨q, fun other last hother => ?_, hanswer⟩)
          -- the first step is broken off already, or it comes to the same
          rcases h.breaks hother with hsame | hbroken
          · rw [outcome_bind, hsame, hrun]
            exact hq other last hother
          · exact hbroken.bind _

theorem Traced.foldlM {γ : Type} {f : Resolver → β → γ → Work β}
    (h : ∀ b c w, Traced resolve own w fun r => f r b c) (cs : List γ) (b : β) :
    Traced resolve own w fun r => cs.foldlM (f r) b := by
  induction cs generalizing b w with
  | nil => exact .pure b
  | cons c rest ih =>
    simp only [List.foldlM_cons]
    exact (h b c w).bind fun b' w₁ _ => ih b'

theorem Traced.within {work : Resolver → Work α} {path : Path} {name : String}
    (h : Traced resolve own (w.enter path name) work) :
    Traced resolve own w fun r => within path name (work r) := by
  constructor
  · intro other q last hother
    rcases h.breaks hother with hsame | ⟨hfailed, hreserved⟩
    · exact .inl (by rw [outcome_within, outcome_within, hsame])
    · exact .inr ⟨hfailed, hreserved⟩
  · intro e he
    refine (h.made e he).imp_right (Or.imp_right ?_)
    rintro ⟨q, hq, hanswer⟩
    exact ⟨q, hq.within, hanswer⟩

end

end Work

/-- The call is for a schema with members whose struct is not under way, so the struct is made, and
it is announced like this. -/
structure Call.Enters (c : Call) (x : Heading) : Prop where
  shape : c.place.schema.shape = .members
  new : c.place.path ∉ c.trail
  heading : x = ⟨Naming.freeName c.workshop.reserved
    (Naming.forType c.place.schema.title c.context), true⟩

namespace Work

/-! ## Structs and other types -/

section

variable {scope : Scope} {resolve : Resolver} {w : Workshop}

theorem addField_traced {own : Declaration → Prop} (required : List String) (s : Struct)
    (e : String × Place) : Traced resolve own w fun r => addField scope r required s e := by
  unfold addField
  dsimp only
  split
  · exact .of_quiet rfl
  · exact (Traced.call _ _).bind fun _ _ _ => .pure _

/-- Making a struct declares it after the calls for its fields. -/
theorem makeStruct_traced (name : String) (place : Place) :
    Traced resolve (fun e => e.heading = ⟨name, true⟩) w
      fun r => makeStruct scope r name place := by
  unfold makeStruct
  refine Traced.bind (.of_quiet rfl) fun ms w₁ _ => ?_
  refine Traced.bind (.foldlM (fun s e w => addField_traced ms.required s e) _ _) ?_
  intro s w₂ hfields
  exact .declare (congrArg (Heading.mk · true) (addFields_name hfields))

/-- Only a struct that is entered is declared besides those of inner calls. -/
theorem inlineStruct_traced (c : Call) (hshape : c.place.schema.shape = .members) :
    Traced resolve (fun e => c.Enters e.heading) c.workshop
      fun r => inlineStruct scope r c.place c.context := by
  unfold inlineStruct
  refine Traced.bind (.of_quiet rfl) fun found w₁ hfound => ?_
  rw [outcome_nameUnderWay?] at hfound
  cases hfound
  cases hlookup : c.workshop.underWay.lookup c.place.path with
  | some name => exact .pure _
  | none =>
    refine Traced.bind (.of_quiet rfl) fun name w₁ hname => ?_
    rw [outcome_reserve] at hname
    cases hname
    refine (Traced.within ?_).bind fun _ _ _ => .pure _
    exact (makeStruct_traced _ c.place).mono fun e he =>
      ⟨hshape, Workshop.not_mem_underWay hlookup, he⟩

theorem typeWith_traced (c : Call) :
    Traced resolve (fun e => c.Enters e.heading) c.workshop
      fun r => typeWith scope r c.place c.context := by
  simp only [typeWith_eq]
  cases hshape : c.place.schema.shape with
  | reference text => exact Traced.bind (.of_quiet rfl) fun _ _ _ => .pure _
  | members => exact inlineStruct_traced c hshape
  | plain type => exact .pure type
  | unknown name => exact .of_quiet rfl
  | list element => exact (Traced.call _ _).bind fun _ _ _ => .pure _
  | dictionary values => exact (Traced.call _ _).bind fun _ _ _ => .pure _

end

/-- Whatever is declared to find a type is the struct of a call that is come to. -/
theorem exists_enters_of_typeOf {scope : Scope} (hscope : scope.Sound) {c : Call}
    (hc : c.Sound scope.document) {e : Declaration}
    (hmade : e ∈ (answer (typeOf scope) c).2.made) (hnew : e ∉ c.workshop.made) :
    ∃ q, Relation.ReflTransGen (Calls scope) c q ∧ q.Sound scope.document ∧
      q.Enters e.heading := by
  induction hroom : c.room scope.document using Nat.strongRecOn generalizing c with
  | ind n ih =>
    rw [answer_typeOf hscope hc] at hmade
    rcases (typeWith_traced c).made e hmade with hbefore | henters | ⟨q, hq, hanswer, hq'⟩
    · exact absurd hbefore hnew
    · exact ⟨c, .refl, hc, henters⟩
    · have hcall : Calls scope c q := consults_of_makes hq
      have hunder := under_of_consults hscope hc hcall
      obtain ⟨q', hpath, hsound, henters⟩ :=
        ih _ (hroom ▸ hunder.room_lt) hunder.sound hanswer hq' rfl
      exact ⟨q', .head hcall hpath, hsound, henters⟩

/-! ## Runs over documents -/

/-- Work on the documents comes to the call. -/
def ComesTo (documents : List Document) (scope : Scope) (c : Call) : Prop :=
  ∃ c₀, Begins documents scope c₀ ∧ Relation.ReflTransGen (Calls scope) c₀ c

/-- What work on the documents declares for a place: a target of the document's scope is declared
as what it is announced by, and a schema with members as a struct whenever a call comes to it and it
is not under way. -/
inductive DeclaredFor (documents : List Document) (d : Document) : Place → Heading → Prop
  | target {scope : Scope} {w : Workshop} {t : Target} (opens : Opens documents d scope w)
      (mem : t ∈ scope.targets.values) : DeclaredFor documents d t.place t.heading
  | nested {scope : Scope} {w : Workshop} {c : Call} {x : Heading}
      (opens : Opens documents d scope w) (comes : ComesTo documents scope c)
      (enters : c.Enters x) : DeclaredFor documents d c.place x

section

variable {documents : List Document} {d : Document} {scope : Scope} {w w' : Workshop}
  {e : Declaration}

/-- A target is declared itself, and the structs that are entered for it. -/
theorem origin_of_declareTarget {t : Target} (hreaches : Reaches documents scope t w)
    (hrun : outcome (declareTarget scope t) w = (.ok (), w')) (hnew : e ∉ w.made)
    (hmade : e ∈ w'.made) :
    e.heading = t.heading ∨ ∃ c, ComesTo documents scope c ∧ c.Enters e.heading := by
  have hcall : ∀ {c}, Begins documents scope c → e ∈ (answer (typeOf scope) c).2.made →
      e ∉ c.workshop.made → ∃ c, ComesTo documents scope c ∧ c.Enters e.heading := by
    intro c hbegins hanswer hbefore
    obtain ⟨hscope, hc⟩ := hbegins.sound
    obtain ⟨q, hpath, _, henters⟩ := exists_enters_of_typeOf hscope hc hanswer hbefore
    exact ⟨q, ⟨c, hbegins, hpath⟩, henters⟩
  unfold declareTarget at hrun
  split at hrun
  · next hstruct =>
    have htraced : Traced (typeOf scope) (fun e => e.heading = ⟨t.name, true⟩) w
        fun r => makeStruct scope r t.name t.place := makeStruct_traced t.name t.place
    have hmade' := htraced.made e
    rw [hrun] at hmade'
    rcases hmade' hmade with hbefore | hown | ⟨q, hq, hanswer, hbefore⟩
    · exact absurd hbefore hnew
    · exact .inl (hown.trans (congrArg (Heading.mk t.name) hstruct.symm))
    · exact .inr (hcall ⟨t, w, hreaches, .inr ⟨hstruct, consults_of_makes hq⟩⟩ hanswer hbefore)
  · next halias =>
    have hfalse := eq_false_of_ne_true halias
    obtain ⟨type, w₁, htype, hdone⟩ := outcome_bind_eq_ok.mp hrun
    cases hdone
    rcases List.mem_cons.mp hmade with rfl | hmade
    · exact .inl (congrArg (Heading.mk t.name) hfalse.symm)
    · refine .inr (hcall (c := ⟨t.place, t.name, w⟩) ⟨t, w, hreaches, .inl ⟨hfalse, rfl⟩⟩ ?_ hnew)
      unfold answer
      rw [htype]
      exact hmade

/-- Everything that is declared is declared for some place of a document. -/
theorem declaredFor_of_made (h : Workshop.ofDocuments documents = .ok w) (he : e ∈ w.made) :
    ∃ d ∈ documents, ∃ p, DeclaredFor documents d p e.heading := by
  obtain ⟨earlier, d, later, w₀, w₁, rfl, hearlier, hd, hnot, hmade⟩ :=
    exists_step_of_forM (P := fun w => e ∈ w.made) (ofDocuments_eq_ok_iff.mp h)
      List.not_mem_nil he
  refine ⟨d, by simp, ?_⟩
  unfold declareDocument at hd
  obtain ⟨scope, w₂, hopen, htargets⟩ := outcome_bind_eq_ok.mp hd
  have hopens : Opens (earlier ++ d :: later) d scope w₂ :=
    ⟨earlier, later, w₀, rfl, hearlier, hopen⟩
  obtain ⟨_, _, _, hsame⟩ := openScope_sound hopen
  rw [← hsame] at hnot
  obtain ⟨before, t, after, w₃, w₄, hvalues, hbefore, hdeclare, hnot', hmade'⟩ :=
    exists_step_of_forM (P := fun w => e ∈ w.made) htargets hnot hmade
  have hreaches : Reaches (earlier ++ d :: later) scope t w₃ :=
    ⟨d, w₂, before, after, hopens, hvalues, hbefore⟩
  rcases origin_of_declareTarget hreaches hdeclare hnot' hmade' with heq | ⟨c, hcomes, henters⟩
  · rw [heq]
    exact ⟨t.place, .target hopens (by rw [hvalues]; simp)⟩
  · exact ⟨c.place, .nested hopens hcomes henters⟩

theorem ComesTo.sound {c : Call} (h : ComesTo documents scope c) :
    scope.Sound ∧ c.Sound scope.document := by
  obtain ⟨c₀, hbegins, hpath⟩ := h
  obtain ⟨hscope, hc₀⟩ := hbegins.sound
  refine ⟨hscope, ?_⟩
  induction hpath with
  | refl => exact hc₀
  | tail _ hcall ih => exact (under_of_consults hscope ih hcall).sound

/-- Types are declared for places of the document only. -/
theorem DeclaredFor.holds {p : Place} {x : Heading} (h : DeclaredFor documents d p x) :
    d.Holds p := by
  cases h with
  | target hopens hmem =>
    obtain ⟨hdocument, hscope, _⟩ := hopens.sound
    exact hdocument ▸ hscope _ hmem
  | nested hopens hcomes _ =>
    obtain ⟨hdocument, _, _⟩ := hopens.sound
    exact hdocument ▸ hcomes.sound.2.held

end

end Work

end SchemaToGo
