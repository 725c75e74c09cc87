import SchemaToGo.Proofs.Document.Places
set_option autoImplicit false

/-!
# Contents of a document

All schemas of a document, also those under keywords that no walk goes through: alternatives, and
the schemas that describe the elements of a list one by one.
-/

namespace SchemaToGo

namespace Place

/-- The schemas of a list under a keyword. -/
def listed (p : Place) (keyword : String) (schemas : List Schema) : List Place :=
  schemas.zipIdx.map fun e => ⟨e.1, p.path ++ [keyword, toString e.2]⟩

/-- The schemas of the first elements of a list. -/
def elements (p : Place) : List Place :=
  match p.schema.items with
  | some (.perPlace schemas) => p.listed "items" schemas
  | _ => []

/-- The schemas of which a value fits one or several. -/
def alternatives (p : Place) : List Place :=
  p.listed "anyOf" (p.schema.anyOf.getD []) ++ p.listed "oneOf" (p.schema.oneOf.getD [])

/-- All schemas directly inside a schema. -/
def inner (p : Place) : List Place := p.parts ++ p.elements ++ p.alternatives

theorem mem_inner_of_mem_parts {p q : Place} (h : q ∈ p.parts) : q ∈ p.inner :=
  List.mem_append_left _ (List.mem_append_left _ h)

theorem size_le_of_mem_listed {p q : Place} {keyword : String} {schemas : List Schema}
    (h : q ∈ p.listed keyword schemas) : q.schema.size ≤ Schema.listSize schemas := by
  obtain ⟨e, he, rfl⟩ := List.mem_map.mp h
  have hmem : e.1 ∈ schemas := List.fst_mem_of_mem_zipIdx he
  rw [Schema.listSize_eq_sum]
  exact List.le_sum_of_mem (List.mem_map_of_mem hmem)

theorem size_lt_of_mem_inner {p q : Place} (h : q ∈ p.inner) : q.schema.size < p.schema.size := by
  have hlist : ∀ {keyword : String} {o : Option (List Schema)},
      q ∈ p.listed keyword (o.getD []) → q.schema.size ≤ Schema.listSize? o := by
    intro keyword o hq
    cases o with
    | none => cases hq
    | some schemas => exact size_le_of_mem_listed hq
  unfold inner alternatives at h
  rw [List.mem_append, List.mem_append, List.mem_append] at h
  rcases h with (hparts | helements) | hanyOf | honeOf
  · exact size_lt_of_mem_parts hparts
  · have hitems : q.schema.size ≤ Schema.itemsSize? p.schema.items := by
      unfold elements at helements
      split at helements
      · next schemas heq =>
        rw [heq]
        exact size_le_of_mem_listed helements
      · cases helements
    rw [p.schema.size_eq]
    omega
  · have := hlist hanyOf
    rw [p.schema.size_eq]
    omega
  · have := hlist honeOf
    rw [p.schema.size_eq]
    omega

end Place

namespace Document

/-- The document has the schema at the path. -/
inductive Contains (d : Document) : Place → Prop
  | root : Contains d ⟨d.schema, []⟩
  | inside {p q : Place} (outer : Contains d p) (inner : q ∈ p.inner) : Contains d q

theorem Contains.part {d : Document} {p q : Place} (h : d.Contains p) (hq : q ∈ p.parts) :
    d.Contains q := .inside h (Place.mem_inner_of_mem_parts hq)

theorem Holds.contains {d : Document} {p : Place} (h : d.Holds p) : d.Contains p := by
  induction h with
  | root => exact .root
  | part _ inner ih => exact ih.part inner

theorem Contains.size_le {d : Document} {p : Place} (h : d.Contains p) :
    p.schema.size ≤ d.schema.size := by
  induction h with
  | root => exact Nat.le_refl _
  | inside _ inner ih => exact Nat.le_trans (Nat.le_of_lt (Place.size_lt_of_mem_inner inner)) ih

end Document

end SchemaToGo
