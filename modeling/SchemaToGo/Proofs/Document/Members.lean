import SchemaToGo.Document.Members
import SchemaToGo.Proofs.Document.Places
set_option autoImplicit false

/-!
# Walks that collect members

A walk that collects members stays in its document, and every reference it follows leads to a
target that it has not followed before: the followed targets are a trail.  Hence the walk ends
however the references of the document lead round in circles; `ofPlace_sameEnd` says that the bound
of `Members.ofPlace` is never felt.
-/

namespace SchemaToGo

/-! ## Scopes -/

/-- The targets of a scope stand in its document. -/
def Scope.Sound (scope : Scope) : Prop :=
  ∀ t ∈ scope.targets.values, scope.document.Holds t.place

theorem Entries.mem_values_of_find? {α : Type} {k : String} {v : α} {es : Entries α}
    (h : Entries.find? k es = some v) : v ∈ es.map Prod.snd := by
  induction es with
  | nil => cases h
  | cons e rest ih =>
    simp only [Entries.find?] at h
    split at h
    · cases h
      exact List.mem_cons_self
    · exact List.mem_cons_of_mem _ (ih h)

namespace Scope

theorem target_of_follow {scope : Scope} {place : Place} {reference : String} {t : Target}
    (h : scope.follow place reference = .ok t) : scope.target reference = .ok t := by
  unfold follow at h
  split at h
  · next heq => rw [heq]; cases h; rfl
  · cases h

/-- A reference leads to one of the targets. -/
theorem mem_targets_of_target {scope : Scope} {reference : String} {t : Target}
    (h : scope.target reference = .ok t) : t ∈ scope.targets.values := by
  unfold target at h
  split at h
  · next fragment _ =>
    dsimp only at h
    split at h
    · next t' heq =>
      cases h
      obtain ⟨steps, _, hfind⟩ := Option.bind_eq_some_iff.mp heq
      exact Entries.mem_values_of_find? hfind
    · cases h
  · cases h

theorem mem_targets_of_follow {scope : Scope} {place : Place} {reference : String} {t : Target}
    (h : scope.follow place reference = .ok t) : t ∈ scope.targets.values :=
  mem_targets_of_target (target_of_follow h)

/-- References fail with a report. -/
theorem follow_ne_exhausted (scope : Scope) (place : Place) (reference : String) :
    scope.follow place reference ≠ .error .exhausted := by
  unfold follow complain
  split <;> exact fun h => nomatch h

end Scope

namespace Members

/-! ## One step of a walk -/

/-- Go on at the target of a schema's reference, unless it has been followed. -/
def followRef (scope : Scope) (walk : Place → Members → Except BuildError Members) (place : Place)
    (ms : Members) : Except BuildError Members :=
  match place.schema.ref with
  | none => .ok ms
  | some reference =>
    match scope.follow place reference with
    | .error e => .error e
    | .ok target =>
      if target.place.path ∈ ms.followed then .ok ms
      else walk target.place { ms with followed := target.place.path :: ms.followed }

/-- Go on at the joined schemas. -/
def joinParts (walk : Place → Members → Except BuildError Members) (parts : List Place)
    (ms : Members) : Except BuildError Members :=
  parts.foldlM (fun ms part => walk part ms) ms

theorem collect_succ (scope : Scope) (n : Nat) (place : Place) (ms : Members) :
    collect scope (n + 1) place ms =
      followRef scope (collect scope n) place (ms.addOwn place) >>=
        joinParts (collect scope n) place.allOfParts := by
  rw [collect]
  unfold followRef
  cases place.schema.ref with
  | none => rfl
  | some reference =>
    cases hfollow : scope.follow place reference with
    | error e => simp only [hfollow]; rfl
    | ok target =>
      simp only [hfollow]
      split
      · next hold => exact if_pos hold
      · next hnew => exact if_neg hnew

theorem joinParts_cons (walk : Place → Members → Except BuildError Members) (part : Place)
    (parts : List Place) (ms : Members) :
    joinParts walk (part :: parts) ms = walk part ms >>= joinParts walk parts := rfl

/-! ## What a walk keeps -/

/-- What has been found stands in the document, and only targets have been followed, none of them
twice. -/
structure Within (scope : Scope) (ms : Members) : Prop where
  trail : scope.document.Trail ms.followed
  aimed : ∀ path ∈ ms.followed, ∃ t ∈ scope.targets.values, t.place.path = path
  held : ∀ e ∈ ms.properties.entries, scope.document.Holds e.2

theorem Within.empty (scope : Scope) : (Members.empty).Within scope :=
  ⟨.nil _, by simp [Members.empty], by simp [Members.empty]⟩

@[simp] theorem followed_addProperty (ms : Members) (e : String × Place) :
    (ms.addProperty e).followed = ms.followed := by
  unfold addProperty
  split <;> rfl

@[simp] theorem followed_addOwn (place : Place) (ms : Members) :
    (ms.addOwn place).followed = ms.followed := by
  have hfold : ∀ (es : List (String × Place)) (ms : Members),
      (es.foldl addProperty ms).followed = ms.followed := by
    intro es
    induction es with
    | nil => intro ms; rfl
    | cons e rest ih => intro ms; rw [List.foldl_cons, ih, followed_addProperty]
  exact hfold _ ms

theorem Within.addProperty {scope : Scope} {ms : Members} {e : String × Place}
    (h : ms.Within scope) (he : scope.document.Holds e.2) : (ms.addProperty e).Within scope := by
  refine ⟨by simpa using h.trail, by simpa using h.aimed, ?_⟩
  unfold Members.addProperty
  split
  · exact h.held
  · intro e' he'
    rcases Dict.mem_of_mem_insert he' with rfl | he'
    · exact he
    · exact h.held e' he'

theorem Within.addOwn {scope : Scope} {place : Place} {ms : Members} (h : ms.Within scope)
    (hplace : scope.document.Holds place) : (ms.addOwn place).Within scope := by
  have hfold : ∀ (es : List (String × Place)) (ms : Members),
      (∀ e ∈ es, scope.document.Holds e.2) → ms.Within scope →
      (es.foldl Members.addProperty ms).Within scope := by
    intro es
    induction es with
    | nil => intro ms _ h; exact h
    | cons e rest ih =>
      intro ms hes h
      exact ih _ (fun e' he' => hes e' (List.mem_cons_of_mem _ he'))
        (h.addProperty (hes e List.mem_cons_self))
  have hown := hfold place.properties ms
    (fun e he => .part hplace (Place.mem_parts_of_property he)) h
  exact ⟨hown.trail, hown.aimed, hown.held⟩

/-- Following a new target closes it. -/
theorem Within.follow {scope : Scope} {ms : Members} {t : Target} (h : ms.Within scope)
    (hscope : scope.Sound) (ht : t ∈ scope.targets.values) (hnew : t.place.path ∉ ms.followed) :
    ({ ms with followed := t.place.path :: ms.followed } : Members).Within scope := by
  refine ⟨h.trail.cons (hscope t ht).hasPath hnew, ?_, h.held⟩
  intro path hpath
  rcases List.mem_cons.mp hpath with rfl | hpath
  · exact ⟨t, ht, rfl⟩
  · exact h.aimed path hpath

/-- What one walk after another keeps: the members stay in the document, and the followed targets
only grow. -/
structure Extends (scope : Scope) (ms ms' : Members) : Prop where
  within : ms'.Within scope
  grown : ms.followed <:+ ms'.followed

theorem Extends.trans {scope : Scope} {ms ms' ms'' : Members} (h : Extends scope ms ms')
    (h' : Extends scope ms' ms'') : Extends scope ms ms'' :=
  ⟨h'.within, h.grown.trans h'.grown⟩

theorem followRef_extends {scope : Scope} (hscope : scope.Sound)
    {walk : Place → Members → Except BuildError Members} {place : Place} {ms ms' : Members}
    (hwalk : ∀ p ms ms', scope.document.Holds p → ms.Within scope →
      walk p ms = .ok ms' → Extends scope ms ms')
    (h : ms.Within scope) (hrun : followRef scope walk place ms = .ok ms') :
    Extends scope ms ms' := by
  unfold followRef at hrun
  split at hrun
  · cases hrun
    exact ⟨h, List.suffix_rfl⟩
  · split at hrun
    · cases hrun
    · next target hfollow =>
      have htarget := Scope.mem_targets_of_follow hfollow
      split at hrun
      · cases hrun
        exact ⟨h, List.suffix_rfl⟩
      · next hnew =>
        have hext := hwalk _ _ _ (hscope target htarget) (h.follow hscope htarget hnew) hrun
        exact ⟨hext.within, (List.suffix_cons _ _).trans hext.grown⟩

theorem joinParts_extends {scope : Scope} {walk : Place → Members → Except BuildError Members}
    (hwalk : ∀ p ms ms', scope.document.Holds p → ms.Within scope → walk p ms = .ok ms' →
      Extends scope ms ms')
    {parts : List Place} (hparts : ∀ p ∈ parts, scope.document.Holds p) {ms ms' : Members}
    (h : ms.Within scope) (hrun : joinParts walk parts ms = .ok ms') : Extends scope ms ms' := by
  induction parts generalizing ms with
  | nil =>
    cases hrun
    exact ⟨h, List.suffix_rfl⟩
  | cons part rest ih =>
    rw [joinParts_cons] at hrun
    cases hpart : walk part ms with
    | error e => rw [hpart] at hrun; cases hrun
    | ok ms₁ =>
      rw [hpart] at hrun
      have hfirst := hwalk _ _ _ (hparts part List.mem_cons_self) h hpart
      exact hfirst.trans
        (ih (fun p hp => hparts p (List.mem_cons_of_mem _ hp)) hfirst.within hrun)

/-- A walk stays in the document, and no target is followed twice on it. -/
theorem collect_extends {scope : Scope} (hscope : scope.Sound) (n : Nat) :
    ∀ place ms ms', scope.document.Holds place → ms.Within scope →
      collect scope n place ms = .ok ms' → Extends scope ms ms' := by
  induction n with
  | zero => intro place ms ms' _ _ hrun; cases hrun
  | succ n ih =>
    intro place ms ms' hplace h hrun
    rw [collect_succ] at hrun
    cases hfollow : followRef scope (collect scope n) place (ms.addOwn place) with
    | error e => rw [hfollow] at hrun; cases hrun
    | ok ms₁ =>
      rw [hfollow] at hrun
      have hown : Extends scope ms (ms.addOwn place) :=
        ⟨h.addOwn hplace, by simp only [followed_addOwn, List.suffix_rfl]⟩
      have href := followRef_extends hscope ih hown.within hfollow
      have hjoin := joinParts_extends ih
        (fun p hp => .part hplace (Place.mem_parts_of_allOf hp)) href.within hrun
      exact (hown.trans href).trans hjoin

/-! ## The bound of a walk -/

/-- Two walks come to the same end, and it is not that of a bound. -/
def SameEnd (r r' : Except BuildError Members) : Prop := r' = r ∧ r ≠ .error .exhausted

theorem followRef_sameEnd {scope : Scope} (hscope : scope.Sound)
    {walk walk' : Place → Members → Except BuildError Members} {place : Place} {ms : Members}
    (h : ms.Within scope)
    (hwalk : ∀ p ms₁, scope.document.Holds p → ms₁.Within scope →
      scope.document.room ms₁.followed.length p.schema.size <
        scope.document.room ms.followed.length place.schema.size →
      SameEnd (walk p ms₁) (walk' p ms₁)) :
    SameEnd (followRef scope walk place ms) (followRef scope walk' place ms) := by
  unfold followRef
  split
  · exact ⟨rfl, nofun⟩
  · next reference _ =>
    cases hfollow : scope.follow place reference with
    | error e =>
      refine ⟨rfl, fun he => ?_⟩
      cases he
      exact Scope.follow_ne_exhausted scope place reference hfollow
    | ok target =>
      have htarget := Scope.mem_targets_of_follow hfollow
      dsimp only
      split
      · exact ⟨rfl, nofun⟩
      · next hnew =>
        have hnext := h.follow hscope htarget hnew
        -- the target is closed now, so a trail one longer still fits into the document
        have hlength : ms.followed.length + 1 ≤ scope.document.schema.size :=
          hnext.trail.length_le
        exact hwalk _ _ (hscope target htarget) hnext
          (Document.room_succ_lt hlength (hscope target htarget).size_le)

theorem joinParts_sameEnd {scope : Scope}
    {walk walk' : Place → Members → Except BuildError Members} (room : Nat)
    (hext : ∀ p ms ms', scope.document.Holds p → ms.Within scope → walk p ms = .ok ms' →
      Extends scope ms ms')
    (hwalk : ∀ p ms, scope.document.Holds p → ms.Within scope →
      scope.document.room ms.followed.length p.schema.size < room →
      SameEnd (walk p ms) (walk' p ms))
    {parts : List Place} {ms : Members} (hparts : ∀ p ∈ parts, scope.document.Holds p ∧
      scope.document.room ms.followed.length p.schema.size < room) (h : ms.Within scope) :
    SameEnd (joinParts walk parts ms) (joinParts walk' parts ms) := by
  induction parts generalizing ms with
  | nil => exact ⟨rfl, nofun⟩
  | cons part rest ih =>
    obtain ⟨hpart, hroom⟩ := hparts part List.mem_cons_self
    obtain ⟨hsame, hend⟩ := hwalk part ms hpart h hroom
    rw [joinParts_cons, joinParts_cons, hsame]
    cases hrun : walk part ms with
    | error e => exact ⟨rfl, fun he => hend (by rw [hrun]; cases he; rfl)⟩
    | ok ms₁ =>
      have hfirst := hext _ _ _ hpart h hrun
      refine ih (fun p hp => ?_) hfirst.within
      obtain ⟨hheld, hp⟩ := hparts p (List.mem_cons_of_mem _ hp)
      exact ⟨hheld, Nat.lt_of_le_of_lt
        (Document.room_le_of_closed_le _ _ hfirst.grown.length_le) hp⟩

/-- A walk with room for all its steps ends, and more room does not change where. -/
theorem collect_sameEnd {scope : Scope} (hscope : scope.Sound) (n k : Nat) :
    ∀ place ms, scope.document.Holds place → ms.Within scope →
      scope.document.room ms.followed.length place.schema.size < n →
      SameEnd (collect scope n place ms) (collect scope (n + k) place ms) := by
  induction n with
  | zero => intro place ms _ _ hroom; exact absurd hroom (Nat.not_lt_zero _)
  | succ n ih =>
    intro place ms hplace h hroom
    rw [Nat.add_right_comm, collect_succ, collect_succ]
    have hown := h.addOwn hplace
    have href : SameEnd (followRef scope (collect scope n) place (ms.addOwn place))
        (followRef scope (collect scope (n + k)) place (ms.addOwn place)) := by
      refine followRef_sameEnd hscope hown fun p ms₁ hp h₁ hlt => ih p ms₁ hp h₁ ?_
      rw [followed_addOwn] at hlt
      omega
    obtain ⟨hsame, hend⟩ := href
    rw [hsame]
    cases hrun : followRef scope (collect scope n) place (ms.addOwn place) with
    | error e => exact ⟨rfl, fun he => hend (by rw [hrun]; cases he; rfl)⟩
    | ok ms₁ =>
      have hext := followRef_extends hscope (collect_extends hscope n) hown hrun
      have hgrown : ms.followed.length ≤ ms₁.followed.length := by
        simpa using hext.grown.length_le
      refine joinParts_sameEnd n (collect_extends hscope n) ih (fun p hp => ?_)
        hext.within
      have hinner := Place.mem_parts_of_allOf hp
      exact ⟨.part hplace hinner, Nat.lt_of_lt_of_le
        (Document.room_lt_of_mem_parts _ hgrown hinner) (Nat.le_of_lt_succ hroom)⟩

/-- The bound of `ofPlace` is never felt. -/
theorem ofPlace_sameEnd {scope : Scope} (hscope : scope.Sound) {place : Place}
    (hplace : scope.document.Holds place) (k : Nat) :
    SameEnd (ofPlace scope place)
      (collect scope (scope.document.walkBound + k) place Members.empty) :=
  collect_sameEnd hscope _ k place _ hplace (.empty _)
    (Document.room_lt_walkBound hplace.size_le)

/-- The members that a schema is found to have stand in its document. -/
theorem holds_of_mem_ofPlace {scope : Scope} (hscope : scope.Sound) {place : Place}
    (hplace : scope.document.Holds place) {ms : Members} (h : ofPlace scope place = .ok ms)
    {e : String × Place} (he : e ∈ ms.properties.entries) : scope.document.Holds e.2 :=
  (collect_extends hscope _ _ _ _ hplace (.empty _) h).within.held e he

end Members

end SchemaToGo
