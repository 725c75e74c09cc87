import SchemaToGo.Proofs.Json.Whole
import SchemaToGo.Proofs.Schema.Order
set_option autoImplicit false

/-!
# Schemas read whole

A schema under `items` or `additionalProperties` is read as a value first, any other one member by
member.  Both ways come to the same schema wherever there is a value, so where a schema stands
matters only if some literal in it has no value or there is no room for its nesting.
-/

namespace SchemaToGo.Schema

open Json Json.Reader

/-! ## Two ways to take values -/

section

variable {σ τ κ κ' : Type} {R : σ → τ → Prop}

/-- Keywords take the same in two ways from everything that is related. -/
structure PartsAgree (R : σ → τ → Prop) (p : Parts (ReaderT σ Option))
    (q : Parts (ReaderT τ Option)) : Prop where
  text : ∀ v w, R v w → p.text v = q.text w
  type : ∀ v w, R v w → p.type v = q.type w
  named : ∀ v w, R v w → p.named v = q.named w
  names : ∀ v w, R v w → p.names v = q.names w
  items : ∀ v w, R v w → p.items v = q.items w
  values : ∀ v w, R v w → p.values v = q.values w
  list : ∀ v w, R v w → p.list v = q.list w

variable {p : Parts (ReaderT σ Option)} {q : Parts (ReaderT τ Option)}

theorem assign_agree (h : PartsAgree R p q) (k : Keyword) (s : Schema) {v : σ} {w : τ}
    (hvw : R v w) : k.assign p s v = k.assign q s w := by
  cases k with
  | ref | title | description => exact congrArg (Option.bind · _) (h.text v w hvw)
  | type => exact congrArg (Option.bind · _) (h.type v w hvw)
  | properties | definitions | defs => exact congrArg (Option.bind · _) (h.named v w hvw)
  | required => exact congrArg (Option.bind · _) (h.names v w hvw)
  | items => exact congrArg (Option.bind · _) (h.items v w hvw)
  | additionalProperties => exact congrArg (Option.bind · _) (h.values v w hvw)
  | allOf | anyOf | oneOf => exact congrArg (Option.bind · _) (h.list v w hvw)

theorem assignElements_agree (h : PartsAgree R p q) {vs : List σ} {ws : List τ}
    (hvws : List.Forall₂ R vs ws) (keywords : List Keyword) (s : Schema) :
    assignElements? p vs keywords s = assignElements? q ws keywords s := by
  induction hvws generalizing keywords s with
  | nil => rfl
  | @cons v w vs ws hvw _ ih =>
    cases keywords with
    | nil => rfl
    | cons k keywords =>
      show (k.assign p s v).bind _ = (k.assign q s w).bind _
      rw [assign_agree h k s hvw]
      exact congrArg _ (funext fun s => ih keywords s)

theorem mapM_agree {α : Type} {f : σ → Option α} {g : τ → Option α} {vs : List σ} {ws : List τ}
    (h : List.Forall₂ (fun v w => f v = g w) vs ws) : vs.mapM f = ws.mapM g := by
  induction h with
  | nil => rfl
  | cons h _ ih => rw [List.mapM_cons, List.mapM_cons, h, ih]

/-- Members that are taken in turn in two ways. -/
theorem foldMembers_agree {α : Type} {key? : κ → Option String} {key?' : κ' → Option String}
    {f : α → String → σ → Option α} {g : α → String → τ → Option α}
    (h : ∀ a name v w, R v w → f a name v = g a name w) {ms : List (κ × σ)} {ns : List (κ' × τ)}
    (hmns : List.Forall₂ (fun m n => key? m.1 = key?' n.1 ∧ R m.2 n.2) ms ns) (a : α) :
    foldMembers? key? f a ms = foldMembers? key?' g a ns := by
  unfold foldMembers?
  induction hmns generalizing a with
  | nil => rfl
  | @cons m n ms ns hmn _ ih =>
    rw [List.foldlM_cons, List.foldlM_cons, hmn.1]
    cases key?' n.1 with
    | none => rfl
    | some name =>
      rw [Option.bind_some, Option.bind_some, h a name m.2 n.2 hmn.2]
      exact congrArg _ (funext ih)

theorem assignMembers_agree (h : PartsAgree R p q) {key? : κ → Option String}
    {key?' : κ' → Option String} {ms : List (κ × σ)} {ns : List (κ' × τ)}
    (hmns : List.Forall₂ (fun m n => key? m.1 = key?' n.1 ∧ R m.2 n.2) ms ns)
    (state : Schema × List Keyword) :
    foldMembers? key? (assignMember? p) state ms =
      foldMembers? key?' (assignMember? q) state ns := by
  refine foldMembers_agree (fun state name v w hvw => ?_) hmns state
  unfold assignMember?
  cases Keyword.ofName? name with
  | none => rfl
  | some k =>
    dsimp only
    rw [assign_agree h k state.1 hvw]

end

/-! ## The schema that a value is -/

theorem elementsNesting_le_iff {n : Nat} {vs : List Value} :
    Value.elementsNesting vs ≤ n ↔ ∀ v ∈ vs, v.nesting ≤ n := by
  induction vs with
  | nil => exact ⟨fun _ _ h => absurd h List.not_mem_nil, fun _ => Nat.zero_le _⟩
  | cons v vs ih => rw [Value.elementsNesting, Nat.max_le, List.forall_mem_cons, ih]

theorem membersNesting_le_iff {n : Nat} {es : List (String × Value)} :
    Value.membersNesting es ≤ n ↔ ∀ e ∈ es, e.2.nesting ≤ n := by
  induction es with
  | nil => exact ⟨fun _ _ h => absurd h List.not_mem_nil, fun _ => Nat.zero_le _⟩
  | cons e es ih => rw [Value.membersNesting, Nat.max_le, List.forall_mem_cons, ih]

theorem namedOfValue?_object (f : Value → Option Schema) (es : List (String × Value)) :
    namedOfValue? f (.object es) =
      foldMembers? some (fun es key v => (f v).map fun s => Entries.insert key s es) [] es := by
  simp only [Option.map_eq_bind]
  rfl

section

variable {f g : Value → Option Schema} {n : Nat} (h : ∀ v, v.nesting ≤ n → f v = g v)
include h

theorem mapM_agree_of_nesting {vs : List Value} (hvs : Value.elementsNesting vs ≤ n) :
    vs.mapM f = vs.mapM g :=
  mapM_agree (List.forall₂_same.mpr fun v hv => h v (elementsNesting_le_iff.mp hvs v hv))

/-- Keywords take the same from a value if the schemas inside it are the same. -/
theorem partsOfValue_agree : PartsAgree (fun v w => v = w ∧ v.nesting ≤ n) (partsOfValue f)
    (partsOfValue g) where
  text := fun v w hvw => hvw.1 ▸ rfl
  type := fun v w hvw => hvw.1 ▸ rfl
  named := by
    rintro v _ ⟨rfl, hv⟩
    cases v with
    | object es =>
      have hes := membersNesting_le_iff.mp (Nat.le_of_add_left_le hv)
      refine congrArg (Option.map some) ?_
      rw [namedOfValue?_object, namedOfValue?_object]
      refine foldMembers_agree (R := fun v w => v = w ∧ v.nesting ≤ n) (fun es name v w hvw => ?_)
        (List.forall₂_same.mpr fun e he => ⟨rfl, rfl, hes e he⟩) []
      rw [← hvw.1, h v hvw.2]
    | _ => rfl
  names := fun v w hvw => hvw.1 ▸ rfl
  items := by
    rintro v _ ⟨rfl, hv⟩
    have hv' := h v hv
    cases v with
    | array vs =>
      show Option.map some (((vs.mapM f).map _).or ((f (.array vs)).map _)) =
        Option.map some (((vs.mapM g).map _).or ((g (.array vs)).map _))
      rw [hv', mapM_agree_of_nesting h (Nat.le_of_add_left_le hv)]
    | null => rfl
    | _ => exact congrArg (fun s => Option.map some (Option.map Elements.uniform s)) hv'
  values := by
    rintro v _ ⟨rfl, hv⟩
    have hv' := h v hv
    cases v with
    | null => rfl
    | bool b => rfl
    | _ => exact congrArg (fun s => Option.map some (Option.map OtherValues.schema s)) hv'
  list := by
    rintro v _ ⟨rfl, hv⟩
    cases v with
    | array vs =>
      exact congrArg (Option.map some) (mapM_agree_of_nesting h (Nat.le_of_add_left_le hv))
    | _ => rfl

end

/-- The schema that a value is, when `schema?` takes the schemas inside. -/
def ofValueWith? (schema? : Value → Option Schema) : Value → Option Schema
  | .object ms => ofMembers? (partsOfValue schema?) ms [] empty
  | .array es => ofElements? (partsOfValue schema?) es Keyword.all empty
  | _ => none

theorem ofNestedValue?_succ (depth : Nat) (v : Value) :
    ofNestedValue? (depth + 1) v = ofValueWith? (ofNestedValue? depth) v := by
  cases v <;> rfl

theorem ofValueWith?_agree {f g : Value → Option Schema} {v : Value}
    (h : ∀ w, w.nesting < v.nesting → f w = g w) : ofValueWith? f v = ofValueWith? g v := by
  cases v with
  | object es =>
    have hparts := partsOfValue_agree (n := Value.membersNesting es) fun w hw =>
      h w (Nat.lt_one_add_iff.mpr hw)
    rw [ofValueWith?, ofValueWith?, ofMembers?_eq, ofMembers?_eq, assignMembers_agree hparts]
    exact List.forall₂_same.mpr fun e he =>
      ⟨rfl, rfl, membersNesting_le_iff.mp (Nat.le_refl _) e he⟩
  | array vs =>
    have hparts := partsOfValue_agree (n := Value.elementsNesting vs) fun w hw =>
      h w (Nat.lt_one_add_iff.mpr hw)
    rw [ofValueWith?, ofValueWith?, ofElements?_eq, ofElements?_eq, assignElements_agree hparts]
    exact List.forall₂_same.mpr fun v hv => ⟨rfl, elementsNesting_le_iff.mp (Nat.le_refl _) v hv⟩
  | _ => rfl

/-- Room beyond the nesting of a value makes no difference. -/
theorem ofNestedValue?_eq {depth depth' : Nat} {v : Value} (h : v.nesting < depth)
    (h' : v.nesting < depth') : ofNestedValue? depth v = ofNestedValue? depth' v := by
  induction depth generalizing depth' v with
  | zero => exact absurd h (Nat.not_lt_zero _)
  | succ depth ih =>
    obtain ⟨depth', rfl⟩ := Nat.exists_eq_add_one_of_ne_zero (Nat.ne_zero_of_lt h')
    rw [ofNestedValue?_succ, ofNestedValue?_succ]
    exact ofValueWith?_agree fun w hw => ih (by omega) (by omega)

/-- The schema that a value is, when the schemas inside are taken the same way. -/
theorem ofValue?_eq (v : Value) : ofValue? v = ofValueWith? ofValue? v := by
  rw [ofValue?, ofNestedValue?_succ]
  exact ofValueWith?_agree fun w hw => ofNestedValue?_eq hw (Nat.lt_succ_self _)

/-! ## The schema of a tree that has a value -/

/-- The schemas inside an array or an object, if there is room for it. -/
def innerOfTree? : Nat → Option (Tree → Option Schema)
  | 0 => none
  | room + 1 => some (ofTree? room)

theorem ofTree?_succ (room : Nat) :
    ofTree? (room + 1) = ofTreeWith? (some (partsOfTree room (innerOfTree? room))) := by
  cases room <;> rfl

section

variable {room : Nat}

/-- A value that may be absent is taken from its tree. -/
theorem unlessNull?_agree {α : Type} {f : Tree → Option α} {g : Value → Option α} {t : Tree}
    {v : Value} (hv : t.value? room = some v) (h : f t = g v) :
    Tree.unlessNull? f t = absentIfNull g v := by
  cases Tree.hasValue_of_value? hv with
  | null => rfl
  | _ => exact congrArg (Option.map some) h

theorem text?_agree {t : Tree} {v : Value} (hv : t.value? room = some v) :
    t.text? = textOfValue? v := by
  cases Tree.hasValue_of_value? hv <;> rfl

theorem names_agree {t : Tree} {v : Value} (hv : t.value? room = some v) :
    Tree.list? (if room = 0 then none else some Tree.text?) t = textsOfValue? v := by
  cases Tree.hasValue_of_value? hv with
  | array h =>
    rw [if_neg (Nat.succ_ne_zero _)]
    exact mapM_agree (h.imp fun t v hv => text?_agree hv)
  | _ => rfl

variable (ih : ∀ n, n < room → ∀ t v, Tree.value? n t = some v → ofTree? n t = ofValue? v)
include ih

theorem namedOfTree?_agree {t : Tree} {v : Value} (hv : t.value? room = some v) :
    namedOfTree? (innerOfTree? room) t = namedOfValue? ofValue? v := by
  cases Tree.hasValue_of_value? hv with
  | @object room ms es h =>
    rw [namedOfValue?_object]
    show foldMembers? id (fun es key t => (ofTree? room t).map fun s => Entries.insert key s es)
      [] ms = _
    refine foldMembers_agree (R := fun t v => Tree.value? room t = some v)
      (fun es name t v htv => ?_) h []
    rw [ih room (Nat.lt_succ_self _) t v htv]
  | _ => rfl

/-- Keywords take the same from a tree and from its value. -/
theorem partsOfTree_agree : PartsAgree (fun t v => Tree.value? room t = some v)
    (partsOfTree room (innerOfTree? room)) (partsOfValue ofValue?) where
  text := fun t v hv => unlessNull?_agree hv (text?_agree hv)
  type := fun t v hv => unlessNull?_agree hv (by rw [hv, Option.bind_some])
  named := fun t v hv => unlessNull?_agree hv (namedOfTree?_agree ih hv)
  names := fun t v hv => unlessNull?_agree hv (names_agree hv)
  items := fun t v hv => unlessNull?_agree hv (by rw [hv, Option.bind_some])
  values := fun t v hv => unlessNull?_agree hv (by rw [hv, Option.bind_some])
  list := by
    refine fun t v hv => unlessNull?_agree hv ?_
    cases Tree.hasValue_of_value? hv with
    | array h => exact mapM_agree (h.imp fun t v hv => ih _ (Nat.lt_succ_self _) t v hv)
    | _ => rfl

end

/-- A tree that has a value is the schema that the value is. -/
theorem ofTree?_eq_ofValue? {room : Nat} {t : Tree} {v : Value} (hv : t.value? room = some v) :
    ofTree? room t = ofValue? v := by
  induction room using Nat.strongRecOn generalizing t v with
  | ind room ih =>
    rw [ofValue?_eq]
    cases Tree.hasValue_of_value? hv with
    | @array room ts vs h =>
      rw [ofTree?_succ, ofValueWith?, ofElements?_eq]
      have hparts := partsOfTree_agree fun n hn t v => ih n (Nat.lt_succ_of_lt hn)
      exact assignElements_agree hparts h _ _
    | @object room ms es h =>
      rw [ofTree?_succ, ofValueWith?, ofMembers?_eq]
      refine congrArg (Option.map Prod.fst) ?_
      have hparts := partsOfTree_agree fun n hn t v => ih n (Nat.lt_succ_of_lt hn)
      exact assignMembers_agree hparts h _
    | _ => cases room with
      | zero => rfl
      | succ room => rw [ofTree?_succ]; rfl

end SchemaToGo.Schema
