import SchemaToGo.Proofs.Schema.Whole
set_option autoImplicit false

/-!
# The form of schemas

What stands where a schema is expected is an object, or it is an array of the values of keywords, in
the order of the keywords and of no more of them than there are.  This holds of the root and of
everything under the keywords that hold schemas, whichever way it is read.
-/

namespace SchemaToGo.Schema

open Json Json.Reader

/-! ## Forms -/

mutual

/-- The tree has the form of a schema. -/
inductive IsForm : Tree → Prop
  | object {ms : List (Option String × Tree)}
      (h : ∀ k v, (some (Keyword.name k), v) ∈ ms → IsFormUnder k v) : IsForm (.object ms)
  | array {ts : List Tree} (hlength : ts.length ≤ Keyword.all.length)
      (h : ∀ k v, (k, v) ∈ Keyword.all.zip ts → IsFormUnder k v) : IsForm (.array ts)

/-- The tree has a form that a keyword's value may have.  `null` counts as absent; keywords that
hold no schemas are of no concern here. -/
inductive IsFormUnder : Keyword → Tree → Prop
  | absent (k : Keyword) : IsFormUnder k .null
  | plain {k : Keyword} (hk : k ∈ [Keyword.ref, .title, .description, .type, .required])
      (v : Tree) : IsFormUnder k v
  | named {k : Keyword} (hk : k ∈ [Keyword.properties, .definitions, .defs])
      {ms : List (Option String × Tree)} (h : ∀ m ∈ ms, IsForm m.2) : IsFormUnder k (.object ms)
  | joined {k : Keyword} (hk : k ∈ [Keyword.allOf, .anyOf, .oneOf]) {ts : List Tree}
      (h : ∀ t ∈ ts, IsForm t) : IsFormUnder k (.array ts)
  | perPlace {ts : List Tree} (h : ∀ t ∈ ts, IsForm t) : IsFormUnder .items (.array ts)
  | uniform {t : Tree} (h : IsForm t) : IsFormUnder .items t
  | allowed (b : Bool) : IsFormUnder .additionalProperties (.bool b)
  | values {t : Tree} (h : IsForm t) : IsFormUnder .additionalProperties t

end

/-! ## What is taken has the form -/

section

variable {σ : Type}

/-- Every member has been taken. -/
theorem taken_of_foldMembers {α κ : Type} {key? : κ → Option String} {f : α → String → σ → Option α}
    {ms : List (κ × σ)} {a b : α} (h : foldMembers? key? f a ms = some b) {m : κ × σ}
    (hm : m ∈ ms) : ∃ name a b, key? m.1 = some name ∧ f a name m.2 = some b := by
  induction ms generalizing a with
  | nil => exact absurd hm List.not_mem_nil
  | cons n ms ih =>
    unfold foldMembers? at h ih
    rw [List.foldlM_cons] at h
    obtain ⟨c, hc, hrest⟩ := Option.bind_eq_some_iff.mp h
    rcases List.mem_cons.mp hm with rfl | hm
    · obtain ⟨name, hname, hc⟩ := Option.bind_eq_some_iff.mp hc
      exact ⟨name, a, c, hname, hc⟩
    · exact ih hrest hm

variable {parts : Parts (ReaderT σ Option)}

/-- Every member of a keyword has been put in its place. -/
theorem assigned_of_assignMember {state state' : Schema × List Keyword} {k : Keyword} {v : σ}
    (h : assignMember? parts state k.name v = some state') :
    ∃ s', k.assign parts state.1 v = some s' := by
  rw [assignMember?, Keyword.ofName?_eq_some_iff.mpr rfl] at h
  dsimp only at h
  split at h
  · exact absurd h nofun
  · obtain ⟨s', hs', -⟩ := Option.map_eq_some_iff.mp h
    exact ⟨s', hs'⟩

/-- There are no more elements than keywords, and every one has been put in its place. -/
theorem assigned_of_assignElements {vs : List σ} {keywords : List Keyword} {s s' : Schema}
    (h : assignElements? parts vs keywords s = some s') :
    vs.length ≤ keywords.length ∧
      ∀ k v, (k, v) ∈ keywords.zip vs → ∃ s s', k.assign parts s v = some s' := by
  induction vs generalizing keywords s with
  | nil =>
    rw [List.zip_nil_right]
    exact ⟨Nat.zero_le _, fun _ _ hmem => absurd hmem List.not_mem_nil⟩
  | cons v vs ih =>
    cases keywords with
    | nil => exact absurd h nofun
    | cons k keywords =>
      obtain ⟨next, hnext, hrest⟩ := Option.bind_eq_some_iff.mp h
      obtain ⟨hlength, hrest⟩ := ih hrest
      refine ⟨Nat.succ_le_succ hlength, fun k' v' hmem => ?_⟩
      rcases List.mem_cons.mp hmem with heq | hmem
      · obtain ⟨rfl, rfl⟩ := Prod.mk.inj heq
        exact ⟨s, next, hnext⟩
      · exact hrest k' v' hmem

end

/-- What is taken where `null` counts as absent. -/
theorem taken_of_unlessNull? {α : Type} {f : Tree → Option α} {t : Tree} {o : Option α}
    (h : Tree.unlessNull? f t = some o) : t = .null ∨ ∃ a, f t = some a := by
  cases t with
  | null => exact .inl rfl
  | _ =>
    obtain ⟨a, ha, -⟩ := Option.map_eq_some_iff.mp h
    exact .inr ⟨a, ha⟩

section

variable {room : Nat}
  (ih : ∀ n, n ≤ room → ∀ t s, ofTree? n t = some s → IsForm t)
include ih

theorem isForm_of_elements {ts : List Tree} {ss : List Schema} {n : Nat} (hn : n ≤ room)
    (h : ts.mapM (ofTree? n) = some ss) : ∀ t ∈ ts, IsForm t := by
  intro t ht
  have hsome := isSome_mapM_iff.mp (Option.isSome_iff_exists.mpr ⟨ss, h⟩) t ht
  obtain ⟨s, hs⟩ := Option.isSome_iff_exists.mp hsome
  exact ih n hn t s hs

theorem isForm_of_named {t : Tree} {es : List (String × Schema)}
    (h : namedOfTree? (innerOfTree? room) t = some es) :
    ∃ ms, t = .object ms ∧ ∀ m ∈ ms, IsForm m.2 := by
  cases t with
  | object ms =>
    cases room with
    | zero => exact absurd h nofun
    | succ room =>
      have hfold : foldMembers? id
          (fun es key t => (ofTree? room t).map fun s => Entries.insert key s es) [] ms =
          some es := h
      refine ⟨ms, rfl, fun m hm => ?_⟩
      obtain ⟨name, es, es', -, htaken⟩ := taken_of_foldMembers hfold hm
      obtain ⟨s, hs, -⟩ := Option.map_eq_some_iff.mp htaken
      exact ih room (Nat.le_succ room) m.2 s hs
  | _ => exact absurd h nofun

theorem isForm_of_list {t : Tree} {ss : List Schema}
    (h : Tree.list? (innerOfTree? room) t = some ss) :
    ∃ ts, t = .array ts ∧ ∀ t ∈ ts, IsForm t := by
  cases t with
  | array ts =>
    cases room with
    | zero => exact absurd h nofun
    | succ room => exact ⟨ts, rfl, isForm_of_elements ih (Nat.le_succ room) h⟩
  | _ => exact absurd h nofun

theorem isForm_of_value {t : Tree} {v : Value} (hv : t.value? room = some v) {s : Schema}
    (hs : ofValue? v = some s) : IsForm t :=
  ih room (Nat.le_refl room) t s ((ofTree?_eq_ofValue? hv).trans hs)

theorem isFormUnder_items {t : Tree} {v : Value} (hv : t.value? room = some v)
    {e : Elements Schema} (h : Elements.ofValue? ofValue? v = some e) : IsFormUnder .items t := by
  have huniform : (ofValue? v).map Elements.uniform = some e → IsFormUnder .items t := by
    intro h
    obtain ⟨s, hs, -⟩ := Option.map_eq_some_iff.mp h
    exact .uniform (isForm_of_value ih hv hs)
  cases Tree.hasValue_of_value? hv with
  | @array room ts vs hvs =>
    have helements : ts.mapM (ofTree? room) = vs.mapM ofValue? :=
      mapM_agree (hvs.imp fun t v hv => ofTree?_eq_ofValue? hv)
    cases hss : vs.mapM ofValue? with
    | some ss => exact .perPlace (isForm_of_elements ih (Nat.le_succ room) (helements.trans hss))
    | none =>
      refine huniform ?_
      change ((vs.mapM ofValue?).map Elements.perPlace).or _ = some e at h
      rwa [hss] at h
  | _ => exact huniform h

theorem isFormUnder_additionalProperties {t : Tree} {v : Value} (hv : t.value? room = some v)
    {o : OtherValues Schema} (h : OtherValues.ofValue? ofValue? v = some o) :
    IsFormUnder .additionalProperties t := by
  have hvalues : (ofValue? v).map OtherValues.schema = some o →
      IsFormUnder .additionalProperties t := by
    intro h
    obtain ⟨s, hs, -⟩ := Option.map_eq_some_iff.mp h
    exact .values (isForm_of_value ih hv hs)
  cases Tree.hasValue_of_value? hv with
  | bool b => exact .allowed _
  | _ => exact hvalues h

/-- What a keyword takes has the form of a value of the keyword. -/
theorem isFormUnder_of_assign {k : Keyword} {s s' : Schema} {t : Tree}
    (h : k.assign (partsOfTree room (innerOfTree? room)) s t = some s') : IsFormUnder k t := by
  cases k with
  | ref | title | description | type | required => exact .plain (by decide) t
  | properties | definitions | defs =>
    obtain ⟨o, ho, -⟩ := Option.bind_eq_some_iff.mp h
    rcases taken_of_unlessNull? ho with rfl | ⟨es, hes⟩
    · exact .absent _
    · obtain ⟨ms, rfl, hms⟩ := isForm_of_named ih hes
      exact .named (by decide) hms
  | allOf | anyOf | oneOf =>
    obtain ⟨o, ho, -⟩ := Option.bind_eq_some_iff.mp h
    rcases taken_of_unlessNull? ho with rfl | ⟨ss, hss⟩
    · exact .absent _
    · obtain ⟨ts, rfl, hts⟩ := isForm_of_list ih hss
      exact .joined (by decide) hts
  | items =>
    obtain ⟨o, ho, -⟩ := Option.bind_eq_some_iff.mp h
    rcases taken_of_unlessNull? ho with rfl | ⟨e, he⟩
    · exact .absent _
    · obtain ⟨v, hv, he⟩ := Option.bind_eq_some_iff.mp he
      exact isFormUnder_items ih hv he
  | additionalProperties =>
    obtain ⟨o, ho, -⟩ := Option.bind_eq_some_iff.mp h
    rcases taken_of_unlessNull? ho with rfl | ⟨o, ho⟩
    · exact .absent _
    · obtain ⟨v, hv, ho⟩ := Option.bind_eq_some_iff.mp ho
      exact isFormUnder_additionalProperties ih hv ho

end

/-- What is a schema has the form of one. -/
theorem isForm_of_ofTree? {room : Nat} {t : Tree} {s : Schema} (h : ofTree? room t = some s) :
    IsForm t := by
  induction room using Nat.strongRecOn generalizing t s with
  | ind room ih =>
    cases room with
    | zero => cases t <;> exact absurd h nofun
    | succ room =>
      have ih : ∀ n, n ≤ room → ∀ t s, ofTree? n t = some s → IsForm t :=
        fun n hn t s => ih n (Nat.lt_succ_of_le hn)
      rw [ofTree?_succ] at h
      cases t with
      | object ms =>
        obtain ⟨state, hstate, -⟩ := Option.map_eq_some_iff.mp h
        refine .object fun k v hm => ?_
        obtain ⟨name, before, after, hname, hafter⟩ := taken_of_foldMembers hstate hm
        obtain rfl : k.name = name := Option.some.inj hname
        obtain ⟨s', hs'⟩ := assigned_of_assignMember hafter
        exact isFormUnder_of_assign ih hs'
      | array ts =>
        obtain ⟨hlength, hassigned⟩ := assigned_of_assignElements h
        refine .array hlength fun k v hv => ?_
        obtain ⟨s, s', hs'⟩ := hassigned k v hv
        exact isFormUnder_of_assign ih hs'
      | _ => exact absurd h nofun

end SchemaToGo.Schema
