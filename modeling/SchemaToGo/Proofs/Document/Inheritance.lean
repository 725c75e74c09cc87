import SchemaToGo.Proofs.Document.Members
import SchemaToGo.Proofs.Document.References
import SchemaToGo.Proofs.Document.Traversal
set_option autoImplicit false

/-!
# Inherited members

Collecting the members of a schema is a traversal of the schemas that it inherits from: the
properties are those of all schemas that are come to, of several with one key the first one, and
the required keys are theirs, too.  `Members.collect_gathers` says so of any scope.  In the scope of
a document nothing else can go wrong than that one of these schemas has a reference without a
target: `Members.exists_rejects_of_collect`.  Both together are `ofPlace_inherited`.

Normative source: SPEC_FULL.md section 10, the row on `allOf`.
-/

namespace SchemaToGo

/-! ## Own members -/

namespace Place

/-- The property of a schema itself under a key. -/
def property? (p : Place) (key : String) : Option Place := Entries.find? key p.properties

/-- The keys that a schema itself requires. -/
def requiredKeys (p : Place) : List String := p.schema.required.getD []

/-- A property stands under its key inside its schema. -/
theorem path_of_property? {p q : Place} {key : String} (h : p.property? key = some q) :
    q ∈ p.parts ∧ q.path = p.path ++ ["properties", key] := by
  have hmem : (key, q) ∈ p.properties := Entries.mem_of_find? h
  refine ⟨mem_parts_of_property hmem, ?_⟩
  obtain ⟨e, _, he⟩ := List.mem_map.mp hmem
  cases he
  rfl

end Place

namespace Members

theorem find?_addProperty (ms : Members) (e : String × Place) (key : String) :
    (ms.addProperty e).properties.find? key =
      (ms.properties.find? key).or (if e.1 = key then some e.2 else none) := by
  unfold addProperty Dict.contains
  split
  · next hold =>
    obtain ⟨q, hq⟩ := Option.isSome_iff_exists.mp hold
    split
    · next heq => rw [← heq, hq, Option.some_or]
    · rw [Option.or_none]
  · next hnew =>
    rw [Bool.not_eq_true, Option.isSome_eq_false_iff, Option.isNone_iff_eq_none] at hnew
    split
    · next heq => rw [← heq, hnew, Option.none_or, Dict.find?_insert_self]
    · next hne => rw [Option.or_none, Dict.find?_insert_of_ne _ (Ne.symm hne)]

/-- Properties are added as far as their keys are new. -/
theorem find?_addProperties (es : List (String × Place)) (ms : Members) (key : String) :
    (es.foldl addProperty ms).properties.find? key =
      (ms.properties.find? key).or (Entries.find? key es) := by
  induction es generalizing ms with
  | nil => exact (Option.or_none).symm
  | cons e rest ih =>
    rw [List.foldl_cons, ih, find?_addProperty, Option.or_assoc, Entries.find?]
    split
    · rw [Option.some_or]
    · rw [Option.none_or]

theorem required_addProperties (es : List (String × Place)) (ms : Members) :
    (es.foldl addProperty ms).required = ms.required := by
  induction es generalizing ms with
  | nil => rfl
  | cons e rest ih =>
    rw [List.foldl_cons, ih]
    unfold addProperty
    split <;> rfl

theorem find?_addOwn (place : Place) (ms : Members) (key : String) :
    (ms.addOwn place).properties.find? key =
      (ms.properties.find? key).or (place.property? key) :=
  find?_addProperties place.properties ms key

theorem required_addOwn (place : Place) (ms : Members) :
    (ms.addOwn place).required = ms.required ++ place.requiredKeys :=
  congrArg (· ++ _) (required_addProperties place.properties ms)

/-! ## What a walk gathers -/

/-- No less has been followed than before, and in the scope of a document still a trail. -/
structure Advances (scope : Scope) (followed followed' : List Path) : Prop where
  length_le : followed.length ≤ followed'.length
  trail : scope.Sound → scope.document.Trail followed → scope.document.Trail followed'

namespace Advances

variable {scope : Scope} {followed followed₁ followed' : List Path}

theorem refl : Advances scope followed followed := ⟨Nat.le_refl _, fun _ h => h⟩

theorem trans (h : Advances scope followed followed₁) (h' : Advances scope followed₁ followed') :
    Advances scope followed followed' :=
  ⟨Nat.le_trans h.length_le h'.length_le, fun hscope hold => h'.trail hscope (h.trail hscope hold)⟩

theorem follow {reference : String} {t : Target} (htarget : scope.target reference = .ok t)
    (hnew : t.place.path ∉ followed) : Advances scope followed (t.place.path :: followed) := by
  refine ⟨Nat.le_succ _, fun hscope hold => hold.cons ?_ hnew⟩
  exact (hscope t (Scope.mem_targets_of_target htarget)).hasPath

end Advances

/-- Walks from the schemas of a list, one after the other, come to the visited schemas and add
their members to those found before. -/
structure Gathers (scope : Scope) (ms : Members) (starts visited : List Place) (ms' : Members) :
    Prop where
  properties : ∀ key, ms'.properties.find? key =
    (ms.properties.find? key).or (visited.findSome? (·.property? key))
  required : ms'.required = ms.required ++ visited.flatMap Place.requiredKeys
  /-- whatever schemas are gone to afterwards -/
  visits : ∀ {rest order : List Place}, scope.Visits ms'.followed rest order →
    scope.Visits ms.followed (starts ++ rest) (visited ++ order)
  advances : Advances scope ms.followed ms'.followed

namespace Gathers

variable {scope : Scope} {ms ms₁ ms' : Members}

theorem nil : Gathers scope ms [] [] ms where
  properties _ := (Option.or_none).symm
  required := (List.append_nil _).symm
  visits h := h
  advances := .refl

theorem append {starts starts' visited visited' : List Place}
    (h : Gathers scope ms starts visited ms₁) (h' : Gathers scope ms₁ starts' visited' ms') :
    Gathers scope ms (starts ++ starts') (visited ++ visited') ms' where
  properties key := by
    rw [h'.properties, h.properties, Option.or_assoc, List.findSome?_append]
  required := by
    rw [h'.required, h.required, List.append_assoc, List.flatMap_append]
  visits hrest := by
    rw [List.append_assoc, List.append_assoc]
    exact h.visits (h'.visits hrest)
  advances := h.advances.trans h'.advances

/-- A walk adds the schema's own members first. -/
theorem start {place : Place} {next visited : List Place} {followed : List Path}
    (h : Gathers scope { ms.addOwn place with followed } next visited ms')
    (hvisits : ∀ {rest order : List Place}, scope.Visits followed (next ++ rest) order →
      scope.Visits ms.followed (place :: rest) (place :: order))
    (hadvances : Advances scope ms.followed followed) :
    Gathers scope ms [place] (place :: visited) ms' where
  properties key := by
    have hown : ({ ms.addOwn place with followed } : Members).properties.find? key = _ :=
      find?_addOwn place ms key
    rw [h.properties, hown, Option.or_assoc, List.findSome?_cons]
    cases place.property? key <;> rfl
  required := by
    have hown : ({ ms.addOwn place with followed } : Members).required = _ :=
      required_addOwn place ms
    rw [h.required, hown, List.append_assoc, List.flatMap_cons]
  visits hrest := hvisits (h.visits hrest)
  advances := hadvances.trans h.advances

end Gathers

section

variable {scope : Scope} {walk : Place → Members → Except BuildError Members} {place : Place}

/-- How the reference of a schema is dealt with: there is none, or its target has been followed, or
the walk goes on there. -/
theorem followRef_eq_ok {ms ms' : Members} (h : followRef scope walk place ms = .ok ms') :
    (ms' = ms ∧ ∀ reference, place.schema.ref = some reference →
      ∃ t, scope.target reference = .ok t ∧ t.place.path ∈ ms.followed) ∨
    ∃ reference t, place.schema.ref = some reference ∧ scope.target reference = .ok t ∧
      t.place.path ∉ ms.followed ∧
      walk t.place { ms with followed := t.place.path :: ms.followed } = .ok ms' := by
  unfold followRef at h
  split at h
  · next hnone =>
    cases h
    exact .inl ⟨rfl, fun reference href => by rw [hnone] at href; cases href⟩
  · next reference href =>
    split at h
    · cases h
    · next t hfollow =>
      have htarget := Scope.target_of_follow hfollow
      split at h
      · next hold =>
        cases h
        refine .inl ⟨rfl, fun reference' href' => ?_⟩
        cases href.symm.trans href'
        exact ⟨t, htarget, hold⟩
      · next hnew => exact .inr ⟨reference, t, href, htarget, hnew, h⟩

theorem followRef_advances
    (hwalk : ∀ p ms ms', walk p ms = .ok ms' → ∃ visited, Gathers scope ms [p] visited ms')
    {ms ms' : Members} (h : followRef scope walk place ms = .ok ms') :
    Advances scope ms.followed ms'.followed := by
  rcases followRef_eq_ok h with ⟨rfl, _⟩ | ⟨reference, t, _, htarget, hnew, hfound⟩
  · exact .refl
  · obtain ⟨visited, hgathers⟩ := hwalk _ _ _ hfound
    exact (Advances.follow htarget hnew).trans hgathers.advances

theorem joinParts_gathers
    (hwalk : ∀ p ms ms', walk p ms = .ok ms' → ∃ visited, Gathers scope ms [p] visited ms')
    {parts : List Place} {ms ms' : Members} (h : joinParts walk parts ms = .ok ms') :
    ∃ visited, Gathers scope ms parts visited ms' := by
  induction parts generalizing ms with
  | nil =>
    cases h
    exact ⟨[], .nil⟩
  | cons part rest ih =>
    rw [joinParts_cons] at h
    cases hpart : walk part ms with
    | error e => rw [hpart] at h; cases h
    | ok ms₁ =>
      rw [hpart] at h
      obtain ⟨visited, hfirst⟩ := hwalk _ _ _ hpart
      obtain ⟨visited', hrest⟩ := ih h
      exact ⟨visited ++ visited', hfirst.append hrest⟩

/-- A walk gathers the members of the schemas that it comes to, whatever its bound is. -/
theorem collect_gathers (n : Nat) : ∀ place ms ms', collect scope n place ms = .ok ms' →
    ∃ visited, Gathers scope ms [place] visited ms' := by
  induction n with
  | zero => intro place ms ms' h; cases h
  | succ n ih =>
    intro place ms ms' h
    rw [collect_succ] at h
    cases hfollow : followRef scope (collect scope n) place (ms.addOwn place) with
    | error e => rw [hfollow] at h; cases h
    | ok ms₁ =>
      rw [hfollow] at h
      obtain ⟨joined, hjoined⟩ := joinParts_gathers ih h
      rcases followRef_eq_ok hfollow with ⟨rfl, hstay⟩ | ⟨reference, t, href, htarget, hnew, hwalk⟩
      · rw [followed_addOwn] at hstay
        refine ⟨place :: joined, Gathers.start ?_ (.stay hstay) .refl⟩
        rw [← followed_addOwn place ms]
        exact hjoined
      · rw [followed_addOwn] at hnew hwalk
        obtain ⟨visited, hvisited⟩ := ih _ _ _ hwalk
        exact ⟨place :: (visited ++ joined), Gathers.start (hvisited.append hjoined)
          (.follow href htarget hnew) (.follow htarget hnew)⟩

/-! ## What stops a walk -/

/-- A reference stops a walk if it has no target, or if the walk is stopped further on. -/
theorem followRef_eq_error {ms : Members} {e : BuildError}
    (h : followRef scope walk place ms = .error e) :
    scope.Rejects place ∨
    ∃ reference t, place.schema.ref = some reference ∧ scope.target reference = .ok t ∧
      t.place.path ∉ ms.followed ∧
      walk t.place { ms with followed := t.place.path :: ms.followed } = .error e := by
  unfold followRef at h
  split at h
  · cases h
  · next reference href =>
    split at h
    · next hfollow =>
      refine .inl ⟨reference, ?_⟩
      unfold Scope.follow at hfollow
      split at hfollow
      · cases hfollow
      · next complaint hcomplaint => exact ⟨complaint, href, hcomplaint⟩
    · next t hfollow =>
      split at h
      · cases h
      · next hnew => exact .inr ⟨reference, t, href, Scope.target_of_follow hfollow, hnew, h⟩

/-- Joined schemas stop a walk if one of them does, when those before it are done. -/
theorem joinParts_eq_error {parts : List Place} {ms : Members} {e : BuildError}
    (h : joinParts walk parts ms = .error e) : ∃ before part after ms₁,
      parts = before ++ part :: after ∧ joinParts walk before ms = .ok ms₁ ∧
      walk part ms₁ = .error e := by
  induction parts generalizing ms with
  | nil => cases h
  | cons part rest ih =>
    rw [joinParts_cons] at h
    cases hpart : walk part ms with
    | error e' =>
      rw [hpart] at h
      cases h
      exact ⟨[], part, rest, ms, rfl, rfl, hpart⟩
    | ok ms₁ =>
      rw [hpart] at h
      obtain ⟨before, part', after, ms₂, rfl, hbefore, herror⟩ := ih h
      refine ⟨part :: before, part', after, ms₂, rfl, ?_, herror⟩
      rw [joinParts_cons, hpart]
      exact hbefore

/-- A walk with room for all its steps is stopped by a reference without a target only. -/
theorem exists_rejects_of_collect (hscope : scope.Sound) (n : Nat) : ∀ place ms e,
    place.schema.size ≤ scope.document.schema.size → scope.document.Trail ms.followed →
    scope.document.room ms.followed.length place.schema.size < n →
    collect scope n place ms = .error e →
      ∃ q, Relation.ReflTransGen scope.Inherits place q ∧ scope.Rejects q := by
  induction n with
  | zero => intro place ms e _ _ hroom _; exact absurd hroom (Nat.not_lt_zero _)
  | succ n ih =>
    intro place ms e hsize htrail hroom h
    rw [collect_succ] at h
    cases hfollow : followRef scope (collect scope n) place (ms.addOwn place) with
    | error e' =>
      rcases followRef_eq_error hfollow with hrejects | ⟨reference, t, href, htarget, hnew, hwalk⟩
      · exact ⟨place, .refl, hrejects⟩
      · rw [followed_addOwn] at hnew hwalk
        have hheld := hscope t (Scope.mem_targets_of_target htarget)
        have hnext := htrail.cons hheld.hasPath hnew
        -- one more place is closed, so the bound of the walk has not been reached
        have hless : scope.document.room (ms.followed.length + 1) t.place.schema.size <
            scope.document.room ms.followed.length place.schema.size :=
          Document.room_succ_lt hnext.length_le hheld.size_le
        obtain ⟨q, hinherits, hrejects⟩ := ih t.place _ e' hheld.size_le hnext
          (Nat.lt_of_lt_of_le hless (Nat.le_of_lt_succ hroom)) hwalk
        exact ⟨q, .head (.target href htarget) hinherits, hrejects⟩
    | ok ms₁ =>
      rw [hfollow] at h
      obtain ⟨before, part, after, ms₂, hparts, hbefore, hwalk⟩ := joinParts_eq_error h
      obtain ⟨visited, hgathers⟩ := joinParts_gathers (collect_gathers n) hbefore
      have hadvances := (followRef_advances (collect_gathers n) hfollow).trans hgathers.advances
      rw [followed_addOwn] at hadvances
      have hpart : part ∈ place.allOfParts := by
        rw [hparts]
        exact List.mem_append_right _ List.mem_cons_self
      have hinner := Place.mem_parts_of_allOf hpart
      have hsmaller := Place.size_lt_of_mem_parts hinner
      have hless := Document.room_lt_of_mem_parts scope.document hadvances.length_le hinner
      obtain ⟨q, hinherits, hrejects⟩ := ih part ms₂ e
        (Nat.le_trans (Nat.le_of_lt hsmaller) hsize) (hadvances.trail hscope htrail)
        (Nat.lt_of_lt_of_le hless (Nat.le_of_lt_succ hroom)) hwalk
      exact ⟨q, .head (.part hpart) hinherits, hrejects⟩

end

end Members

/-! ## The members of a schema -/

namespace Document

theorem AsksName.contains {d : Document} {p : Place} (h : d.AsksName p) : d.Contains p := by
  obtain ⟨e, he, rfl⟩ := List.mem_map.mp (asksName_iff.mp h)
  exact (Work.holds_of_mem_namedPlaces he).contains

namespace HasScope

variable {d : Document} {scope : Scope}

theorem separates (h : d.HasScope scope) : scope.Separates := by
  intro reference reference' t t' htarget htarget' hpath
  rw [h.eq_of_path (Scope.mem_targets_of_target htarget) (Scope.mem_targets_of_target htarget')
    hpath]

/-- What a schema inherits from stands in its document. -/
theorem contains_of_inherits (h : d.HasScope scope) {p q : Place} (hp : d.Contains p)
    (hinherits : Relation.ReflTransGen scope.Inherits p q) : d.Contains q := by
  induction hinherits with
  | refl => exact hp
  | tail _ hstep ih =>
    cases hstep with
    | target _ htarget => exact (h.asksName (Scope.mem_targets_of_target htarget)).contains
    | part hpart => exact ih.part (Place.mem_parts_of_allOf hpart)

end HasScope

end Document

/-- The members of a schema are gathered in a traversal from it. -/
theorem Members.ofPlace_gathers {scope : Scope} {start : Place} {ms : Members}
    (h : ofPlace scope start = .ok ms) : ∃ order, scope.Visits [] [start] order ∧
      (∀ key, ms.properties.find? key = order.findSome? (·.property? key)) ∧
      ms.required = order.flatMap Place.requiredKeys := by
  obtain ⟨order, hgathers⟩ := collect_gathers _ _ _ _ h
  have hvisits := hgathers.visits .done
  rw [List.append_nil, List.append_nil] at hvisits
  exact ⟨order, hvisits, fun key => (hgathers.properties key).trans Option.none_or,
    hgathers.required.trans (List.nil_append _)⟩

/-- The keys that are found in a traversal are those of the properties of all its schemas. -/
theorem Members.mem_keys_iff {ms : Members} {order : List Place}
    (h : ∀ key, ms.properties.find? key = order.findSome? (·.property? key)) (key : String) :
    key ∈ ms.properties.keys ↔ ∃ p ∈ order, key ∈ p.properties.map Prod.fst := by
  rw [← Dict.isSome_find?, h, List.findSome?_isSome_iff]
  exact exists_congr fun p => and_congr_right fun _ => Entries.isSome_find?

/-- Collecting the members of a schema fails if and only if the schema inherits from one, perhaps
itself, with a reference without a target.  Otherwise the members are those of all schemas that it
inherits from, and of several properties with one key that of the first schema in the traversal
counts, whose own path leads to it. -/
theorem Members.ofPlace_inherited {d : Document} {scope : Scope} {w w' : Workshop}
    (hopen : Work.outcome (Work.openScope d) w = (.ok scope, w')) {start : Place}
    (hstart : d.Contains start) :
    ((∃ e, ofPlace scope start = .error e) ↔
      ∃ p, Relation.ReflTransGen scope.Inherits start p ∧ scope.Rejects p) ∧
    ∀ ms, ofPlace scope start = .ok ms →
      (∀ key, key ∈ ms.properties.keys ↔ ∃ p, Relation.ReflTransGen scope.Inherits start p ∧
        key ∈ p.properties.map Prod.fst) ∧
      (∀ key, key ∈ ms.required ↔ ∃ p, Relation.ReflTransGen scope.Inherits start p ∧
        key ∈ p.requiredKeys) ∧
      ∃ order, (∀ order', scope.Visits [] [start] order' ↔ order' = order) ∧
        (∀ p, p ∈ order ↔ Relation.ReflTransGen scope.Inherits start p) ∧
        (∀ key, ms.properties.find? key = order.findSome? (·.property? key)) ∧
        (∀ key q, ms.properties.find? key = some q → ∃ before p after,
          order = before ++ p :: after ∧ (∀ x ∈ before, x.property? key = none) ∧
          p.property? key = some q ∧ q.path = p.path ++ ["properties", key] ∧
          Pointer.segments? (Pointer.ofSegments q.path) = some q.path ∧ d.Contains q) ∧
        ∀ key q, start.property? key = some q → ms.properties.find? key = some q := by
  have hscope := Work.hasScope_of_openScope hopen
  refine ⟨⟨?_, ?_⟩, fun ms hms => ?_⟩
  · rintro ⟨e, he⟩
    have hsize : start.schema.size ≤ scope.document.schema.size := by
      rw [hscope.document]
      exact hstart.size_le
    exact exists_rejects_of_collect hscope.sound _ start empty e hsize (.nil _)
      (Document.room_lt_walkBound hsize) he
  · rintro ⟨p, hinherits, hrejects⟩
    cases hms : ofPlace scope start with
    | error e => exact ⟨e, rfl⟩
    | ok ms =>
      obtain ⟨order, hvisits, _⟩ := ofPlace_gathers hms
      have hp := (hvisits.mem_iff hscope.separates).mpr hinherits
      exact absurd hrejects (hvisits.not_rejects hscope.separates p hp)
  · obtain ⟨order, hvisits, hfind, hrequired⟩ := ofPlace_gathers hms
    have hmem : ∀ p, p ∈ order ↔ Relation.ReflTransGen scope.Inherits start p :=
      fun p => hvisits.mem_iff hscope.separates
    refine ⟨fun key => ?_, fun key => ?_, order, fun order' => ?_, hmem, hfind,
      fun key q hq => ?_, fun key q hq => ?_⟩
    · rw [mem_keys_iff hfind]
      exact exists_congr fun p => and_congr_left fun _ => hmem p
    · rw [hrequired, List.mem_flatMap]
      exact exists_congr fun p => and_congr_left fun _ => hmem p
    · refine ⟨hvisits.unique, ?_⟩
      rintro rfl
      exact hvisits
    · rw [hfind] at hq
      obtain ⟨before, p, after, horder, hp, hbefore⟩ := List.findSome?_eq_some_iff.mp hq
      obtain ⟨hpart, hpath⟩ := Place.path_of_property? hp
      have hinherits : Relation.ReflTransGen scope.Inherits start p := by
        rw [← hmem, horder]
        exact List.mem_append_right _ List.mem_cons_self
      exact ⟨before, p, after, horder, hbefore, hp, hpath, Pointer.segments?_ofSegments _,
        (hscope.contains_of_inherits hstart hinherits).part hpart⟩
    · rw [hfind]
      obtain ⟨after, rfl⟩ := hvisits.exists_cons
      rw [List.findSome?_cons, hq]

namespace Document

/-- Children inherit from parents. -/
def familyChild : Place where
  schema := { Schema.empty with
    required := some ["school"]
    ref := some "#/definitions/parent" }
  path := ["definitions", "child"]

/-- Parents inherit from children, and have an age. -/
def familyParent : Place where
  schema := { Schema.empty with
    allOf := some [
      { Schema.empty with ref := some "#/definitions/child" },
      { Schema.empty with
        properties := some [("age", { Schema.empty with type := some (.single "integer") })] }] }
  path := ["definitions", "parent"]

/-- Parents and children. -/
def family : Document where
  name := "family.json"
  schema := { Schema.empty with
    definitions := some [("child", familyChild.schema), ("parent", familyParent.schema)] }

theorem ofPlace_inherited_family : ∃ scope w,
    Work.outcome (Work.openScope family) Workshop.empty = (.ok scope, w) ∧
    family.Contains familyParent ∧
    Relation.ReflTransGen scope.Inherits familyParent familyChild ∧
    Relation.ReflTransGen scope.Inherits familyChild familyParent ∧
    (¬ ∃ p, Relation.ReflTransGen scope.Inherits familyParent p ∧ scope.Rejects p) ∧
    ∃ ms, Members.ofPlace scope familyParent = .ok ms ∧ "school" ∈ ms.required ∧
      ∃ q, ms.properties.find? "age" = some q ∧ family.Contains q ∧
        q.path = ["definitions", "parent", "allOf", "1", "properties", "age"] := by
  obtain ⟨scope, w, hopen⟩ := Work.exists_openScope family Workshop.empty
  have hscope := Work.hasScope_of_openScope hopen
  have hkeyed : family.schema.Keyed := by
    constructor <;> decide
  have hchild : family.AsksName familyChild :=
    .inr ⟨⟨"definitions", "child", familyChild.schema⟩, List.mem_cons_self, rfl⟩
  have hparent : family.AsksName familyParent :=
    .inr ⟨⟨"definitions", "parent", familyParent.schema⟩,
      List.mem_cons_of_mem _ List.mem_cons_self, rfl⟩
  obtain ⟨t, ht, htchild⟩ := hscope.exists_target_at hkeyed
    ⟨"/definitions/child", rfl, by decide +kernel, hchild⟩
  obtain ⟨t', ht', htparent⟩ := hscope.exists_target_at hkeyed
    ⟨"/definitions/parent", rfl, by decide +kernel, hparent⟩
  have hup : Relation.ReflTransGen scope.Inherits familyChild familyParent :=
    htparent ▸ .single (.target rfl ht')
  have hdown : Relation.ReflTransGen scope.Inherits familyParent familyChild :=
    htchild ▸ .head (.part List.mem_cons_self) (.single (.target rfl ht))
  have hrun : (match (Work.outcome (Work.openScope family) Workshop.empty).1 with
      | .ok scope => (Members.ofPlace scope familyParent).toOption.bind fun ms =>
          (ms.properties.find? "age").map Place.path
      | .error _ => none) =
        some ["definitions", "parent", "allOf", "1", "properties", "age"] := by
    decide +kernel
  rw [hopen] at hrun
  dsimp only at hrun
  obtain ⟨hfails, hall⟩ := Members.ofPlace_inherited hopen hparent.contains
  cases hms : Members.ofPlace scope familyParent with
  | error e => rw [hms] at hrun; cases hrun
  | ok ms =>
    rw [hms] at hrun
    obtain ⟨q, hq, hpath⟩ := Option.map_eq_some_iff.mp hrun
    obtain ⟨_, hrequired, _, _, _, _, hfound, _⟩ := hall ms hms
    obtain ⟨_, _, _, _, _, _, _, _, hcontains⟩ := hfound "age" q hq
    refine ⟨scope, w, hopen, hparent.contains, hdown, hup, fun hrejects => ?_, ms, hms, ?_, q, hq,
      hcontains, hpath⟩
    · obtain ⟨e, he⟩ := hfails.mpr hrejects
      rw [hms] at he
      cases he
    · exact (hrequired "school").mpr ⟨familyChild, hdown, List.mem_cons_self⟩

end Document

end SchemaToGo
