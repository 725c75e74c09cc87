import SchemaToGo.Proofs.Document.Members
import SchemaToGo.Proofs.Workshop.Step
set_option autoImplicit false

/-!
# Calls inside each other

Finding the type of a schema calls for the types of schemas inside it, and through references also
of schemas around it.  A call that makes further calls either goes down to a smaller schema or
enters a struct that is not under way yet.  So the structs under way are a trail of the document,
every call leaves less room to the calls it makes, and no bound is felt.

Which calls a piece of work makes is read off the work itself: it consults a resolver about a call
if another answer to that call alone would change what the work comes to.
-/

namespace SchemaToGo

/-- A call for the type of a schema. -/
structure Call where
  place : Place
  context : String
  workshop : Workshop

namespace Call

/-- The paths of the structs under way. -/
def trail (c : Call) : List Path := c.workshop.underWay.map Prod.fst

/-- The call is about a schema of the document, and the structs under way are a trail. -/
structure Sound (d : Document) (c : Call) : Prop where
  held : d.Holds c.place
  trail : d.Trail c.trail

/-- The room that a call leaves to the calls inside it. -/
def room (d : Document) (c : Call) : Nat := d.room c.trail.length c.place.schema.size

theorem Sound.room_lt_walkBound {d : Document} {c : Call} (h : c.Sound d) :
    c.room d < d.walkBound :=
  Document.room_lt_walkBound h.held.size_le

/-- `q` may be made by `c`: it has less room, and if a struct has been entered for it, that struct
is the one of `c` and was not under way before. -/
structure Under (d : Document) (c q : Call) : Prop where
  sound : q.Sound d
  room_lt : q.room d < c.room d
  entered : q.workshop.underWay = c.workshop.underWay ∨
    c.place.path ∉ c.trail ∧
      ∃ name, q.workshop.underWay = (c.place.path, name) :: c.workshop.underWay

end Call

namespace Work

variable {α β : Type}

/-- What a resolver answers to a call. -/
def answer (resolve : Resolver) (c : Call) : Except BuildError GoType × Workshop :=
  outcome (resolve c.place c.context) c.workshop

/-- Another answer of the resolver to the call alone changes what the work comes to. -/
def Consults (work : Resolver → Work α) (resolve : Resolver) (w : Workshop) (q : Call) : Prop :=
  ∃ other : Resolver, (∀ q' ≠ q, answer other q' = answer resolve q') ∧
    outcome (work other) w ≠ outcome (work resolve) w

/-- The other resolver answers like the first one, but breaks off at one call and leaves the
workshop `last`. -/
structure BreaksOff (resolve other : Resolver) (q : Call) (last : Workshop) : Prop where
  same : ∀ q' ≠ q, answer other q' = answer resolve q'
  fails : answer other q = (.error .exhausted, last)

/-- The work has been broken off, with the names taken that were taken then. -/
structure Broken (last : Workshop) (r : Except BuildError α × Workshop) : Prop where
  failed : r.1 = .error .exhausted
  reserved : r.2.reserved = last.reserved

theorem Broken.bind {last w : Workshop} {step : Work α} (h : Broken last (outcome step w))
    (next : α → Work β) : Broken last (outcome (step >>= next) w) := by
  obtain ⟨hfailed, hreserved⟩ := h
  rw [outcome_bind_of_error (Prod.ext hfailed rfl)]
  exact ⟨rfl, hreserved⟩

/-- The work makes the call: it is broken off if the resolver breaks off there. -/
def Makes (work : Resolver → Work α) (resolve : Resolver) (w : Workshop) (q : Call) : Prop :=
  ∀ other last, BreaksOff resolve other q last → Broken last (outcome (work other) w)

/-- Work consults the resolver about the calls that it makes. -/
theorem consults_of_makes {work : Resolver → Work α} {resolve : Resolver} {w : Workshop} {q : Call}
    (h : Makes work resolve w q) : Consults work resolve w q := by
  classical
  -- the other answer leaves more names taken than there are in the end
  let last := (outcome (work resolve) w).2
  let more : Workshop := { last with reserved := "" :: last.reserved }
  let other : Resolver := fun place context w =>
    if ⟨place, context, w⟩ = q then (.error .exhausted, more) else resolve place context w
  have hother : BreaksOff resolve other q more := ⟨fun q' hne => if_neg hne, if_pos rfl⟩
  refine ⟨other, hother.same, fun heq => ?_⟩
  have hreserved := (h other more hother).reserved
  rw [heq] at hreserved
  exact List.cons_ne_self _ _ hreserved.symm

section

variable {resolve : Resolver} {w w₁ : Workshop} {q : Call}

theorem Makes.call (q : Call) :
    Makes (fun r => r q.place q.context) resolve q.workshop q := by
  intro other last hother
  rw [show outcome (other q.place q.context) q.workshop = _ from hother.fails]
  exact ⟨rfl, rfl⟩

theorem Makes.bind {step : Resolver → Work α} (h : Makes step resolve w q)
    (next : Resolver → α → Work β) : Makes (fun r => step r >>= next r) resolve w q :=
  fun other last hother => (h other last hother).bind (next other)

/-- The calls of the rest are made after a step that makes none. -/
theorem Makes.after {step : Work α} {a : α} {next : Resolver → α → Work β}
    (hstep : outcome step w = (.ok a, w₁)) (h : Makes (fun r => next r a) resolve w₁ q) :
    Makes (fun r => step >>= next r) resolve w q := by
  intro other last hother
  rw [outcome_bind, hstep]
  exact h other last hother

theorem Makes.within {work : Resolver → Work α} {path : Path} {name : String}
    (h : Makes work resolve (w.enter path name) q) :
    Makes (fun r => within path name (work r)) resolve w q := by
  intro other last hother
  obtain ⟨hfailed, hreserved⟩ := h other last hother
  rw [outcome_within]
  exact ⟨hfailed, hreserved⟩

end

/-! ## Work that settles -/

/-- Two pieces of work on one workshop come to the same end, which is not that of a bound, and
leave the same structs under way as before. -/
structure Settles (w : Workshop) (work work' : Work α) : Prop where
  same : outcome work' w = outcome work w
  ended : (outcome work w).1 ≠ .error .exhausted
  restored : (outcome work w).2.underWay = w.underWay

theorem Settles.of_done {w : Workshop} {work : Work α} {r : Except BuildError α}
    (h : outcome work w = (r, w)) (hr : r ≠ .error .exhausted) : Settles w work work :=
  ⟨rfl, by rw [h]; exact hr, by rw [h]⟩

theorem Settles.bind {w : Workshop} {work work' : Work α} {next next' : α → Work β}
    (h : Settles w work work')
    (hnext : ∀ a w₁, outcome work w = (.ok a, w₁) → w₁.underWay = w.underWay →
      Settles w₁ (next a) (next' a)) :
    Settles w (work >>= next) (work' >>= next') := by
  obtain ⟨hsame, hended, hrestored⟩ := h
  cases hrun : outcome work w with
  | mk r w₁ =>
    rw [hrun] at hsame hended hrestored
    cases r with
    | error e =>
      refine ⟨?_, ?_, ?_⟩
      · rw [outcome_bind, outcome_bind, hsame, hrun]
      · rw [outcome_bind, hrun]
        exact fun he => hended (by cases he; rfl)
      · rw [outcome_bind, hrun]
        exact hrestored
    | ok a =>
      obtain ⟨hsame', hended', hrestored'⟩ := hnext a w₁ hrun hrestored
      refine ⟨?_, ?_, ?_⟩
      · rw [outcome_bind, outcome_bind, hsame, hrun]
        exact hsame'
      · rw [outcome_bind, hrun]
        exact hended'
      · rw [outcome_bind, hrun]
        exact hrestored'.trans hrestored

/-- What comes of a step on its own is passed on. -/
theorem Settles.step {w w₁ : Workshop} {work : Work α} {a : α} {next next' : α → Work β}
    (hwork : outcome work w = (.ok a, w₁)) (hunderWay : w₁.underWay = w.underWay)
    (hnext : Settles w₁ (next a) (next' a)) : Settles w (work >>= next) (work >>= next') := by
  refine Settles.bind ⟨rfl, ?_, ?_⟩ ?_
  · rw [hwork]; exact nofun
  · rw [hwork]; exact hunderWay
  · intro a' w' hrun _
    rw [hwork] at hrun
    cases hrun
    exact hnext

/-! ## Structs -/

section

variable {scope : Scope} {resolve resolve' : Resolver}

theorem addField_settles {w : Workshop} (required : List String) (s : Struct)
    (e : String × Place)
    (hcalls : ∀ context, Settles w (resolve e.2 context) (resolve' e.2 context)) :
    Settles w (addField scope resolve required s e) (addField scope resolve' required s e) := by
  unfold addField
  dsimp only
  split
  · exact .of_done rfl nofun
  · refine (hcalls _).bind fun t w₁ _ _ => ?_
    exact .of_done rfl nofun

theorem addFields_settles {w : Workshop} (required : List String) {es : List (String × Place)}
    (hcalls : ∀ e ∈ es, ∀ context w', w'.underWay = w.underWay →
      Settles w' (resolve e.2 context) (resolve' e.2 context)) (s : Struct) :
    Settles w (es.foldlM (addField scope resolve required) s)
      (es.foldlM (addField scope resolve' required) s) := by
  induction es generalizing w s with
  | nil => exact .of_done rfl nofun
  | cons e rest ih =>
    rw [List.foldlM_cons, List.foldlM_cons]
    refine (addField_settles required s e fun context =>
      hcalls e List.mem_cons_self context w rfl).bind fun s' w₁ _ hw₁ => ?_
    exact ih (fun e' he' context w' hw' =>
      hcalls e' (List.mem_cons_of_mem _ he') context w' (hw'.trans hw₁)) s'

/-- Making a struct settles if the calls for its fields do. -/
theorem makeStruct_settles (hscope : scope.Sound) {w : Workshop} (name : String) {place : Place}
    (hplace : scope.document.Holds place)
    (hcalls : ∀ q : Call, scope.document.Holds q.place → q.workshop.underWay = w.underWay →
      Settles q.workshop (resolve q.place q.context) (resolve' q.place q.context)) :
    Settles w (makeStruct scope resolve name place) (makeStruct scope resolve' name place) := by
  have hmembers : Settles w (liftM (Members.ofPlace scope place) : Work Members)
      (liftM (Members.ofPlace scope place)) :=
    .of_done rfl (Members.ofPlace_sameEnd hscope hplace 0).2
  unfold makeStruct
  refine hmembers.bind fun ms w₁ hms hw₁ => ?_
  have hfound : Members.ofPlace scope place = .ok ms := congrArg Prod.fst hms
  refine (addFields_settles ms.required (fun e he context w' hw' => ?_) _).bind
    fun s w₂ _ _ => ⟨rfl, by rw [outcome_declare]; exact nofun, rfl⟩
  exact hcalls ⟨e.2, context, w'⟩ (Members.holds_of_mem_ofPlace hscope hplace hfound he)
    (hw'.trans hw₁)

/-- The struct of a schema settles if the calls for its fields do, of which every one finds the
struct under way. -/
theorem inlineStruct_settles (hscope : scope.Sound) {c : Call} (hc : c.Sound scope.document)
    (hcalls : ∀ q : Call, c.Under scope.document q →
      Settles q.workshop (resolve q.place q.context) (resolve' q.place q.context)) :
    Settles c.workshop (inlineStruct scope resolve c.place c.context)
      (inlineStruct scope resolve' c.place c.context) := by
  unfold inlineStruct
  refine .step (outcome_nameUnderWay? _ _) rfl ?_
  cases hlookup : c.workshop.underWay.lookup c.place.path with
  | some name => exact .of_done rfl nofun
  | none =>
    have hnew : c.place.path ∉ c.trail := Workshop.not_mem_underWay hlookup
    refine .step (outcome_reserve _ _) rfl ?_
    generalize Naming.freeName _ _ = name
    let entered : Workshop :=
      { c.workshop with reserved := name :: c.workshop.reserved }.enter c.place.path name
    have hunder : ∀ q : Call, scope.document.Holds q.place →
        q.workshop.underWay = entered.underWay → c.Under scope.document q := by
      intro q hq hunderWay
      have htrail : q.trail = c.place.path :: c.trail := congrArg (List.map Prod.fst) hunderWay
      have hsound := hc.trail.cons hc.held.hasPath hnew
      refine ⟨⟨hq, htrail ▸ hsound⟩, ?_, .inr ⟨hnew, name, hunderWay⟩⟩
      unfold Call.room
      rw [htrail]
      exact Document.room_succ_lt hsound.length_le hq.size_le
    have hmake : Settles entered (makeStruct scope resolve name c.place)
        (makeStruct scope resolve' name c.place) :=
      makeStruct_settles hscope name hc.held fun q hq hq' => hcalls q (hunder q hq hq')
    refine Settles.bind ⟨?_, ?_, ?_⟩ fun _ w₁ _ _ => .of_done rfl nofun
    · rw [outcome_within, outcome_within, hmake.same]
    · rw [outcome_within]; exact hmake.ended
    · rw [outcome_within]
      exact Workshop.underWay_leave hnew hmake.restored

/-! ## Types -/

/-- Finding a type settles if the calls that may be made for it do. -/
theorem typeWith_settles (hscope : scope.Sound) {c : Call} (hc : c.Sound scope.document)
    (hcalls : ∀ q : Call, c.Under scope.document q →
      Settles q.workshop (resolve q.place q.context) (resolve' q.place q.context)) :
    Settles c.workshop (typeWith scope resolve c.place c.context)
      (typeWith scope resolve' c.place c.context) := by
  have hinner : ∀ {p : Place}, p ∈ c.place.parts → ∀ context,
      Settles c.workshop (resolve p context) (resolve' p context) := by
    intro p hp context
    refine hcalls ⟨p, context, c.workshop⟩ ⟨⟨.part hc.held hp, hc.trail⟩, ?_, .inl rfl⟩
    exact Document.room_lt_of_size_lt _ _ (Place.size_lt_of_mem_parts hp)
  rw [typeWith_eq, typeWith_eq]
  cases hshape : c.place.schema.shape with
  | reference text =>
    have hfollow : Settles c.workshop (liftM (scope.follow c.place text) : Work Target)
        (liftM (scope.follow c.place text)) :=
      .of_done rfl (Scope.follow_ne_exhausted scope c.place text)
    exact hfollow.bind fun _ _ _ _ => .of_done rfl nofun
  | members => exact inlineStruct_settles hscope hc hcalls
  | plain type => exact .of_done rfl nofun
  | unknown name => exact .of_done rfl (by unfold Scope.complain; exact nofun)
  | list element =>
    have hitems := Place.mem_parts_of_items (Schema.items_of_shape hshape)
    exact (hinner hitems _).bind fun _ _ _ _ => .of_done rfl nofun
  | dictionary values =>
    have hvalues := Place.mem_parts_of_additionalSchema (Schema.additionalSchema?_of_shape hshape)
    exact (hinner hvalues _).bind fun _ _ _ _ => .of_done rfl nofun

end

/-- A bound above a call's room is not felt, nor is any larger one. -/
theorem typeWithin_settles {scope : Scope} (hscope : scope.Sound) (n k : Nat) {c : Call}
    (hc : c.Sound scope.document) (hroom : c.room scope.document < n) :
    Settles c.workshop (typeWithin scope n c.place c.context)
      (typeWithin scope (n + k) c.place c.context) := by
  induction n generalizing c with
  | zero => exact absurd hroom (Nat.not_lt_zero _)
  | succ n ih =>
    rw [Nat.add_right_comm]
    exact typeWith_settles hscope hc fun q hq =>
      ih hq.sound (Nat.lt_of_lt_of_le hq.room_lt (Nat.le_of_lt_succ hroom))

theorem typeOf_settles {scope : Scope} (hscope : scope.Sound) {c : Call}
    (hc : c.Sound scope.document) :
    Settles c.workshop (typeOf scope c.place c.context) (typeOf scope c.place c.context) :=
  typeWithin_settles hscope _ 0 hc hc.room_lt_walkBound

/-- The types that are found solve the equation without a bound. -/
theorem answer_typeOf {scope : Scope} (hscope : scope.Sound) {c : Call}
    (hc : c.Sound scope.document) :
    answer (typeOf scope) c = answer (typeWith scope (typeOf scope)) c :=
  (typeWithin_settles hscope _ 1 hc hc.room_lt_walkBound).same.symm

/-! ## Which calls are made -/

/-- A call only makes calls that leave less room and enter no struct a second time. -/
theorem under_of_consults {scope : Scope} (hscope : scope.Sound) {c q : Call}
    (hc : c.Sound scope.document)
    (h : Consults (fun r => typeWith scope r c.place c.context) (typeOf scope) c.workshop q) :
    c.Under scope.document q := by
  obtain ⟨other, hother, hne⟩ := h
  by_contra hq
  refine hne (typeWith_settles hscope hc fun q' hq' => ?_).same
  have hsame : answer other q' = answer (typeOf scope) q' :=
    hother q' fun heq => hq (heq ▸ hq')
  obtain ⟨_, hended, hrestored⟩ := typeOf_settles hscope hq'.sound
  exact ⟨hsame, hended, hrestored⟩

/-- The calls for the fields of a struct find the structs under way that it was begun with. -/
theorem sound_of_makeStruct_consults {scope : Scope} (hscope : scope.Sound) {place : Place}
    {name : String} {w : Workshop} {q : Call} (hplace : scope.document.Holds place)
    (hw : scope.document.Trail (w.underWay.map Prod.fst))
    (h : Consults (fun r => makeStruct scope r name place) (typeOf scope) w q) :
    q.Sound scope.document ∧ q.workshop.underWay = w.underWay := by
  obtain ⟨other, hother, hne⟩ := h
  by_contra hq
  refine hne (makeStruct_settles hscope name hplace fun q' hq' hunderWay => ?_).same
  have hsound : q'.Sound scope.document := by
    refine ⟨hq', ?_⟩
    unfold Call.trail
    rw [hunderWay]
    exact hw
  have hsame : answer other q' = answer (typeOf scope) q' :=
    hother q' fun heq => hq (heq ▸ ⟨hsound, hunderWay⟩)
  obtain ⟨_, hended, hrestored⟩ := typeOf_settles hscope hsound
  exact ⟨hsame, hended, hrestored⟩

end Work

end SchemaToGo
