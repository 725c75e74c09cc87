import SchemaToGo.Document.Members
import SchemaToGo.Proofs.Document.Contents
import Mathlib.Logic.Relation
set_option autoImplicit false

/-!
# Traversals

A schema inherits from the target of its reference and from the schemas that it joins.  `Visits`
lists the schemas that are come to from a schema, depth first and each one before those from which
it inherits; a target is only gone to when it has not been followed before.  Neither the start nor
joined schemas are remembered, so a schema may be listed several times.

A schema is listed if and only if the start inherits from it in any number of steps:
`Visits.mem_iff`.  That a target is not gone to again loses none, because it has been listed by
then, even if what it inherits itself has not.
-/

namespace SchemaToGo

namespace Scope

variable (scope : Scope)

/-- The members of the second schema are members of the first one, too. -/
inductive Inherits : Place → Place → Prop
  | target {p : Place} {reference : String} {t : Target} :
      p.schema.ref = some reference → scope.target reference = .ok t → Inherits p t.place
  | part {p q : Place} : q ∈ p.allOfParts → Inherits p q

/-- The schema has a reference without a target. -/
def Rejects (p : Place) : Prop :=
  ∃ reference complaint, p.schema.ref = some reference ∧
    scope.target reference = .error complaint

/-- The schemas that are come to when the schemas of a stack are gone through from its top and some
targets have been followed already. -/
inductive Visits : List Path → List Place → List Place → Prop
  | done {followed : List Path} : Visits followed [] []
  /-- there is no reference, or its target has been followed -/
  | stay {followed : List Path} {p : Place} {rest order : List Place} :
      (∀ reference, p.schema.ref = some reference →
        ∃ t, scope.target reference = .ok t ∧ t.place.path ∈ followed) →
      Visits followed (p.allOfParts ++ rest) order → Visits followed (p :: rest) (p :: order)
  | follow {followed : List Path} {p : Place} {rest order : List Place} {reference : String}
      {t : Target} :
      p.schema.ref = some reference → scope.target reference = .ok t →
      t.place.path ∉ followed →
      Visits (t.place.path :: followed) (t.place :: (p.allOfParts ++ rest)) order →
      Visits followed (p :: rest) (p :: order)

/-- Targets that stand in one place are one schema. -/
def Separates : Prop :=
  ∀ {reference reference' : String} {t t' : Target}, scope.target reference = .ok t →
    scope.target reference' = .ok t' → t.place.path = t'.place.path → t.place = t'.place

end Scope

namespace Scope.Visits

variable {scope : Scope} {followed : List Path} {stack order : List Place}

/-- There is one traversal only. -/
theorem unique (h : scope.Visits followed stack order) {order' : List Place}
    (h' : scope.Visits followed stack order') : order' = order := by
  have hexclusive : ∀ {p : Place} {reference : String} {t : Target} {followed : List Path},
      p.schema.ref = some reference → scope.target reference = .ok t →
      t.place.path ∉ followed → ¬ ∀ reference, p.schema.ref = some reference →
        ∃ t, scope.target reference = .ok t ∧ t.place.path ∈ followed := by
    intro p reference t followed href htarget hnew hstay
    obtain ⟨t', htarget', hold⟩ := hstay reference href
    cases htarget.symm.trans htarget'
    exact hnew hold
  induction h generalizing order' with
  | done =>
    cases h'
    rfl
  | stay hstay _ ih =>
    cases h' with
    | stay _ hmore => rw [ih hmore]
    | follow href htarget hnew => exact absurd hstay (hexclusive href htarget hnew)
  | follow href htarget hnew _ ih =>
    cases h' with
    | stay hstay => exact absurd hstay (hexclusive href htarget hnew)
    | follow href' htarget' _ hmore =>
      cases href.symm.trans href'
      cases htarget.symm.trans htarget'
      rw [ih hmore]

/-- The top of the stack is come to first. -/
theorem exists_cons {p : Place} {rest : List Place} (h : scope.Visits followed (p :: rest) order) :
    ∃ after, order = p :: after := by
  cases h with
  | stay => exact ⟨_, rfl⟩
  | follow => exact ⟨_, rfl⟩

/-- All schemas of the stack are come to. -/
theorem stack_subset (h : scope.Visits followed stack order) : stack ⊆ order := by
  induction h with
  | done => exact List.Subset.refl _
  | stay _ _ ih => exact List.cons_subset_cons _ (List.append_subset.mp ih).2
  | follow _ _ _ _ ih =>
    exact List.cons_subset_cons _ (List.append_subset.mp (List.cons_subset.mp ih).2).2

/-- Only schemas are come to from which one of the stack inherits. -/
theorem inherited (h : scope.Visits followed stack order) :
    ∀ q ∈ order, ∃ p ∈ stack, Relation.ReflTransGen scope.Inherits p q := by
  -- a schema inherits from those that take its place on the stack
  have hstep : ∀ (more : List Place) {p : Place} {rest order : List Place},
      (∀ x ∈ more, scope.Inherits p x) →
      (∀ q ∈ order, ∃ x ∈ more ++ rest, Relation.ReflTransGen scope.Inherits x q) →
      ∀ q ∈ p :: order, ∃ x ∈ p :: rest, Relation.ReflTransGen scope.Inherits x q := by
    intro more p rest order hmore horder q hq
    rcases List.mem_cons.mp hq with rfl | hq
    · exact ⟨q, List.mem_cons_self, .refl⟩
    · obtain ⟨x, hx, hinherits⟩ := horder q hq
      rcases List.mem_append.mp hx with hx | hx
      · exact ⟨p, List.mem_cons_self, .head (hmore x hx) hinherits⟩
      · exact ⟨x, List.mem_cons_of_mem _ hx, hinherits⟩
  induction h with
  | done => exact nofun
  | stay _ _ ih => exact hstep _ (fun x hx => .part hx) ih
  | @follow _ p rest _ _ t href htarget _ _ ih =>
    refine hstep (t.place :: p.allOfParts) (fun x hx => ?_) ih
    rcases List.mem_cons.mp hx with rfl | hx
    · exact .target href htarget
    · exact .part hx

/-- What is inherited by the schemas that are come to is come to as well, targets apart that had
been followed before. -/
theorem closed (hscope : scope.Separates) (h : scope.Visits followed stack order) :
    ∀ q ∈ order, q.allOfParts ⊆ order ∧ ∀ reference, q.schema.ref = some reference →
      ∃ t, scope.target reference = .ok t ∧ (t.place ∈ order ∨ t.place.path ∈ followed) := by
  induction h with
  | done => exact nofun
  | @stay followed p rest order hstay hmore ih =>
    intro q hq
    rcases List.mem_cons.mp hq with rfl | hq
    · have hparts := (List.append_subset.mp hmore.stack_subset).1
      refine ⟨List.subset_cons_of_subset _ hparts, fun reference href => ?_⟩
      obtain ⟨t, htarget, hold⟩ := hstay reference href
      exact ⟨t, htarget, .inr hold⟩
    · obtain ⟨hparts, htargets⟩ := ih q hq
      refine ⟨List.subset_cons_of_subset _ hparts, fun reference href => ?_⟩
      obtain ⟨t, htarget, ht⟩ := htargets reference href
      exact ⟨t, htarget, ht.imp_left (List.mem_cons_of_mem _)⟩
  | @follow followed p rest order reference t href htarget hnew hmore ih =>
    obtain ⟨ht, hstack⟩ := List.cons_subset.mp hmore.stack_subset
    intro q hq
    rcases List.mem_cons.mp hq with rfl | hq
    · have hparts := (List.append_subset.mp hstack).1
      refine ⟨List.subset_cons_of_subset _ hparts, fun reference' href' => ?_⟩
      cases href.symm.trans href'
      exact ⟨t, htarget, .inl (List.mem_cons_of_mem _ ht)⟩
    · obtain ⟨hparts, htargets⟩ := ih q hq
      refine ⟨List.subset_cons_of_subset _ hparts, fun reference' href' => ?_⟩
      obtain ⟨t', htarget', ht'⟩ := htargets reference' href'
      refine ⟨t', htarget', ?_⟩
      rcases ht' with ht' | ht'
      · exact .inl (List.mem_cons_of_mem _ ht')
      · -- the target followed here is on the list, also when a reference led back to it
        rcases List.mem_cons.mp ht' with heq | ht'
        · exact .inl (List.mem_cons_of_mem _ (hscope htarget' htarget heq ▸ ht))
        · exact .inr ht'

/-- When nothing has been followed before, exactly the schemas are come to from which the start
inherits. -/
theorem mem_iff (hscope : scope.Separates) {start : Place} (h : scope.Visits [] [start] order)
    {q : Place} : q ∈ order ↔ Relation.ReflTransGen scope.Inherits start q := by
  have hclosed := h.closed hscope
  constructor
  · intro hq
    obtain ⟨p, hp, hinherits⟩ := h.inherited q hq
    rwa [List.mem_singleton.mp hp] at hinherits
  · intro hq
    induction hq with
    | refl => exact h.stack_subset List.mem_cons_self
    | tail _ hstep ih =>
      obtain ⟨hparts, htargets⟩ := hclosed _ ih
      cases hstep with
      | part hpart => exact hparts hpart
      | target href htarget =>
        obtain ⟨t', htarget', ht'⟩ := htargets _ href
        cases htarget.symm.trans htarget'
        exact ht'.resolve_right List.not_mem_nil

/-- The references of the schemas that are come to have targets. -/
theorem not_rejects (hscope : scope.Separates) (h : scope.Visits followed stack order) :
    ∀ q ∈ order, ¬ scope.Rejects q := by
  rintro q hq ⟨reference, complaint, href, herror⟩
  obtain ⟨t, htarget, _⟩ := (h.closed hscope q hq).2 reference href
  rw [htarget] at herror
  cases herror

end Scope.Visits

end SchemaToGo
