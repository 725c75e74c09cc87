import SchemaToGo.Document
import Mathlib.Algebra.Order.BigOperators.Group.List
import Mathlib.Data.List.Perm.Subperm
import Mathlib.Tactic.Ring
set_option autoImplicit false

/-!
# Places of a document

The schemas that a document holds: its root, and whatever stands under the keywords by which a
walk goes from a schema to the next one.  A schema under one of these keywords is smaller than the
schema around it, so a document has at most as many places as its size says.

A trail is a list of paths in a document, none of which stands in it twice.  Walks keep trails of
the places they must not enter again; since a trail cannot be longer than the document has places,
`Document.room` falls with every step of a walk.
-/

namespace SchemaToGo

/-! ## Parts of a schema -/

namespace Place

/-- The schema of all elements of a list. -/
def element (p : Place) : List Place :=
  match p.schema.items with
  | some (.uniform item) => [⟨item, p.path ++ ["items"]⟩]
  | _ => []

/-- The schema of members that are not listed. -/
def otherValues (p : Place) : List Place :=
  (p.schema.additionalSchema?.map fun s => ⟨s, p.path ++ ["additionalProperties"]⟩).toList

/-- The schemas that stand under names. -/
def definitions (p : Place) : List Place :=
  p.schema.definitionList.map fun e => ⟨e.schema, p.path ++ [e.container, e.key]⟩

/-- The schemas to which one step of a walk leads. -/
def parts (p : Place) : List Place :=
  p.properties.map Prod.snd ++ p.element ++ p.otherValues ++ p.definitions ++ p.allOfParts

theorem mem_parts_of_property {p : Place} {e : String × Place} (h : e ∈ p.properties) :
    e.2 ∈ p.parts := by
  simp only [parts, List.mem_append]
  exact .inl (.inl (.inl (.inl (List.mem_map_of_mem h))))

theorem mem_parts_of_items {p : Place} {s : Schema} (h : p.schema.items = some (.uniform s)) :
    ⟨s, p.path ++ ["items"]⟩ ∈ p.parts := by
  have helement : p.element = [⟨s, p.path ++ ["items"]⟩] := by
    unfold element
    rw [h]
  simp [parts, helement]

theorem mem_parts_of_additionalSchema {p : Place} {s : Schema}
    (h : p.schema.additionalSchema? = some s) :
    ⟨s, p.path ++ ["additionalProperties"]⟩ ∈ p.parts := by
  simp [parts, otherValues, h]

theorem mem_parts_of_definition {p : Place} {e : Schema.Definition}
    (h : e ∈ p.schema.definitionList) : ⟨e.schema, p.path ++ [e.container, e.key]⟩ ∈ p.parts := by
  have hmem : ⟨e.schema, p.path ++ [e.container, e.key]⟩ ∈ p.definitions :=
    List.mem_map_of_mem h
  simp [parts, hmem]

theorem mem_parts_of_allOf {p q : Place} (h : q ∈ p.allOfParts) : q ∈ p.parts :=
  List.mem_append_right _ h

/-- The path of a part goes on from that of the schema. -/
theorem path_ne_nil_of_mem_parts {p q : Place} (h : q ∈ p.parts) : q.path ≠ [] := by
  unfold parts at h
  simp only [List.mem_append] at h
  rcases h with (((hproperty | helement) | hvalues) | hdefinition) | hallOf
  · obtain ⟨_, he, rfl⟩ := List.mem_map.mp hproperty
    obtain ⟨_, _, rfl⟩ := List.mem_map.mp he
    simp
  · unfold element at helement
    split at helement
    · rw [List.mem_singleton.mp helement]
      simp
    · cases helement
  · unfold otherValues at hvalues
    obtain ⟨_, _, rfl⟩ := Option.map_eq_some_iff.mp (Option.mem_toList.mp hvalues)
    simp
  · obtain ⟨_, _, rfl⟩ := List.mem_map.mp hdefinition
    simp
  · obtain ⟨_, _, rfl⟩ := List.mem_map.mp hallOf
    simp

end Place

/-! ## Sizes -/

namespace Schema

theorem entriesSize_eq_sum (es : List (String × Schema)) :
    entriesSize es = (es.map fun e => e.2.size).sum := by
  induction es with
  | nil => rfl
  | cons e rest ih => simp [entriesSize, ih]

theorem listSize_eq_sum (ss : List Schema) : listSize ss = (ss.map size).sum := by
  induction ss with
  | nil => rfl
  | cons s rest ih => simp [listSize, ih]

theorem entriesSize?_eq_sum (o : Option (List (String × Schema))) :
    entriesSize? o = ((o.getD []).map fun e => e.2.size).sum := by
  cases o with
  | none => rfl
  | some es => exact entriesSize_eq_sum es

theorem listSize?_eq_sum (o : Option (List Schema)) :
    listSize? o = ((o.getD []).map size).sum := by
  cases o with
  | none => rfl
  | some ss => exact listSize_eq_sum ss

theorem size_eq (s : Schema) :
    s.size = 1 + entriesSize? s.properties + itemsSize? s.items +
      valuesSize? s.additionalProperties + entriesSize? s.definitions + entriesSize? s.defs +
      listSize? s.allOf + listSize? s.anyOf + listSize? s.oneOf := by
  cases s; rfl

end Schema

namespace Place

/-- The sizes of places added up. -/
def totalSize (ps : List Place) : Nat := (ps.map fun p => p.schema.size).sum

theorem totalSize_append (ps qs : List Place) :
    totalSize (ps ++ qs) = totalSize ps + totalSize qs := by
  simp [totalSize]

theorem totalSize_properties (p : Place) :
    totalSize (p.properties.map Prod.snd) = Schema.entriesSize? p.schema.properties := by
  simp [totalSize, properties, Schema.entriesSize?_eq_sum, Function.comp_def]

theorem totalSize_element (p : Place) :
    totalSize p.element ≤ Schema.itemsSize? p.schema.items := by
  unfold element
  cases p.schema.items with
  | none => simp [totalSize]
  | some elements =>
    cases elements with
    | perPlace ss => simp [totalSize]
    | uniform s => simp [totalSize, Schema.itemsSize?]

theorem totalSize_otherValues (p : Place) :
    totalSize p.otherValues ≤ Schema.valuesSize? p.schema.additionalProperties := by
  unfold otherValues Schema.additionalSchema?
  cases p.schema.additionalProperties with
  | none => simp [totalSize]
  | some values =>
    cases values with
    | allowed b => simp [totalSize]
    | schema s => simp [totalSize, Schema.valuesSize?]

theorem totalSize_definitions (p : Place) :
    totalSize p.definitions =
      Schema.entriesSize? p.schema.definitions + Schema.entriesSize? p.schema.defs := by
  simp [totalSize, definitions, Schema.definitionList, Schema.entriesSize?_eq_sum,
    Function.comp_def]

theorem totalSize_allOfParts (p : Place) :
    totalSize p.allOfParts = Schema.listSize? p.schema.allOf := by
  have hfst : ((p.schema.allOf.getD []).zipIdx.map Prod.fst) = p.schema.allOf.getD [] :=
    List.zipIdx_map_fst 0 _
  calc totalSize p.allOfParts
      = (((p.schema.allOf.getD []).zipIdx.map Prod.fst).map Schema.size).sum := by
        simp only [totalSize, allOfParts, List.map_map, Function.comp_def]
    _ = Schema.listSize? p.schema.allOf := by rw [hfst, Schema.listSize?_eq_sum]

/-- The parts of a schema are smaller than the schema, all of them taken together. -/
theorem totalSize_parts_lt (p : Place) : totalSize p.parts < p.schema.size := by
  have helement := totalSize_element p
  have hvalues := totalSize_otherValues p
  rw [Schema.size_eq]
  simp only [parts, totalSize_append, totalSize_properties, totalSize_definitions,
    totalSize_allOfParts]
  omega

theorem size_le_totalSize {q : Place} {ps : List Place} (h : q ∈ ps) :
    q.schema.size ≤ totalSize ps :=
  List.le_sum_of_mem (List.mem_map_of_mem h)

theorem size_lt_of_mem_parts {p q : Place} (h : q ∈ p.parts) : q.schema.size < p.schema.size :=
  Nat.lt_of_le_of_lt (size_le_totalSize h) (totalSize_parts_lt p)

/-- The place and all places inside it. -/
def within (p : Place) : List Place :=
  p :: p.parts.attach.flatMap fun q => q.1.within
termination_by p.schema.size
decreasing_by exact size_lt_of_mem_parts q.2

theorem within_eq (p : Place) : p.within = p :: p.parts.flatMap within := by
  rw [within]
  simp

/-- There are no more places inside a place than its schema's size says. -/
theorem length_within_le (p : Place) : p.within.length ≤ p.schema.size := by
  have hparts : ∀ ps : List Place, (∀ q ∈ ps, q.within.length ≤ q.schema.size) →
      (ps.flatMap within).length ≤ totalSize ps := by
    intro ps
    induction ps with
    | nil => intro _; simp
    | cons q rest ih =>
      intro h
      have hq := h q List.mem_cons_self
      have hrest := ih fun r hr => h r (List.mem_cons_of_mem _ hr)
      simp only [List.flatMap_cons, List.length_append, totalSize, List.map_cons, List.sum_cons]
      exact Nat.add_le_add hq hrest
  rw [within_eq, List.length_cons]
  have hinner := hparts p.parts fun q _ => length_within_le q
  have hsize := totalSize_parts_lt p
  omega
termination_by p.schema.size
decreasing_by exact size_lt_of_mem_parts ‹_›

end Place

/-! ## Places of a document -/

namespace Document

/-- The document holds a schema at a path. -/
inductive Holds (d : Document) : Place → Prop
  | root : Holds d ⟨d.schema, []⟩
  | part {p q : Place} (outer : Holds d p) (inner : q ∈ p.parts) : Holds d q

/-- The path leads to a schema of the document. -/
def HasPath (d : Document) (path : Path) : Prop := ∃ p, d.Holds p ∧ p.path = path

theorem Holds.hasPath {d : Document} {p : Place} (h : d.Holds p) : d.HasPath p.path :=
  ⟨p, h, rfl⟩

/-- Only the root stands at the empty path. -/
theorem Holds.eq_root {d : Document} {p : Place} (h : d.Holds p) (hpath : p.path = []) :
    p = ⟨d.schema, []⟩ := by
  cases h with
  | root => rfl
  | part _ inner => exact absurd hpath (Place.path_ne_nil_of_mem_parts inner)

theorem Holds.size_le {d : Document} {p : Place} (h : d.Holds p) :
    p.schema.size ≤ d.schema.size := by
  induction h with
  | root => exact Nat.le_refl _
  | part _ inner ih => exact Nat.le_trans (Nat.le_of_lt (Place.size_lt_of_mem_parts inner)) ih

/-- Every place of a document is found inside its root. -/
theorem Holds.mem_within {d : Document} {p : Place} (h : d.Holds p) :
    p ∈ (⟨d.schema, []⟩ : Place).within := by
  have hstep : ∀ {outer p q : Place}, p ∈ outer.within → q ∈ p.parts → q ∈ outer.within := by
    intro outer p q hp hq
    induction houter : outer.schema.size using Nat.strongRecOn generalizing outer with
    | ind n ih =>
      rw [Place.within_eq] at hp ⊢
      rcases List.mem_cons.mp hp with rfl | hp
      · refine List.mem_cons_of_mem _ (List.mem_flatMap.mpr ⟨q, hq, ?_⟩)
        rw [Place.within_eq]
        exact List.mem_cons_self
      · obtain ⟨r, hr, hpr⟩ := List.mem_flatMap.mp hp
        refine List.mem_cons_of_mem _ (List.mem_flatMap.mpr ⟨r, hr, ?_⟩)
        exact ih r.schema.size (houter ▸ Place.size_lt_of_mem_parts hr) hpr rfl
  induction h with
  | root =>
    rw [Place.within_eq]
    exact List.mem_cons_self
  | part _ inner ih => exact hstep ih inner

/-! ## Trails -/

/-- Paths to schemas of a document, none of them twice. -/
structure Trail (d : Document) (paths : List Path) : Prop where
  nodup : paths.Nodup
  inside : ∀ path ∈ paths, d.HasPath path

theorem Trail.nil (d : Document) : d.Trail [] := ⟨List.nodup_nil, by simp⟩

theorem Trail.cons {d : Document} {path : Path} {paths : List Path} (h : d.Trail paths)
    (hpath : d.HasPath path) (hnew : path ∉ paths) : d.Trail (path :: paths) := by
  refine ⟨List.nodup_cons.mpr ⟨hnew, h.nodup⟩, ?_⟩
  intro q hq
  rcases List.mem_cons.mp hq with rfl | hq
  · exact hpath
  · exact h.inside q hq

/-- A trail is no longer than the document has places. -/
theorem Trail.length_le {d : Document} {paths : List Path} (h : d.Trail paths) :
    paths.length ≤ d.schema.size := by
  have hsub : paths ⊆ (⟨d.schema, []⟩ : Place).within.map Place.path := by
    intro path hpath
    obtain ⟨p, hp, rfl⟩ := h.inside path hpath
    exact List.mem_map_of_mem hp.mem_within
  calc paths.length
      ≤ ((⟨d.schema, []⟩ : Place).within.map Place.path).length :=
        (h.nodup.subperm hsub).length_le
    _ = (⟨d.schema, []⟩ : Place).within.length := List.length_map ..
    _ ≤ d.schema.size := Place.length_within_le _

/-- How many more steps a walk can take from a schema of a given size when a trail of a given
length is closed to it: down to the smallest schema, and once more from every place that is still
open. -/
def room (d : Document) (closed size : Nat) : Nat :=
  (d.schema.size - closed) * (d.schema.size + 1) + size

theorem room_le_of_closed_le (d : Document) {m n : Nat} (size : Nat) (h : m ≤ n) :
    d.room n size ≤ d.room m size :=
  Nat.add_le_add_right (Nat.mul_le_mul_right _ (Nat.sub_le_sub_left h _)) _

theorem room_lt_of_size_lt (d : Document) (closed : Nat) {m n : Nat} (h : m < n) :
    d.room closed m < d.room closed n :=
  Nat.add_lt_add_left h _

/-- Going inside a schema leaves less room, however many places are closed by then. -/
theorem room_lt_of_mem_parts (d : Document) {closed closed' : Nat} {p q : Place}
    (hclosed : closed ≤ closed') (hq : q ∈ p.parts) :
    d.room closed' q.schema.size < d.room closed p.schema.size :=
  calc d.room closed' q.schema.size
      ≤ d.room closed q.schema.size := room_le_of_closed_le d _ hclosed
    _ < d.room closed p.schema.size := room_lt_of_size_lt d _ (Place.size_lt_of_mem_parts hq)

/-- Closing one more place leaves less room, wherever the walk goes on. -/
theorem room_succ_lt {d : Document} {closed m n : Nat} (hclosed : closed < d.schema.size)
    (hm : m ≤ d.schema.size) : d.room (closed + 1) m < d.room closed n := by
  unfold room
  have hleft : d.schema.size - closed = (d.schema.size - (closed + 1)) + 1 := by omega
  rw [hleft, Nat.add_mul]
  omega

theorem room_lt_walkBound {d : Document} {closed m : Nat} (hm : m ≤ d.schema.size) :
    d.room closed m < d.walkBound := by
  have hopen : (d.schema.size - closed) * (d.schema.size + 1) ≤
      d.schema.size * (d.schema.size + 1) := Nat.mul_le_mul_right _ (Nat.sub_le _ _)
  have hbound : d.walkBound = d.schema.size * (d.schema.size + 1) + 3 * d.schema.size + 4 := by
    unfold walkBound
    ring
  unfold room
  omega

end Document

end SchemaToGo
