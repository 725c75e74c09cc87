import SchemaToGo.Proofs.Json.Value
import Mathlib.Data.List.Forall2
set_option autoImplicit false

/-!
# Trees that can be read whole

A tree has a value if all literals in it have one and it is not nested deeper than there is room
for.  More room gives no other value.
-/

namespace SchemaToGo.Json

/-! ## Lists read one by one -/

section

variable {α β : Type} {f : α → Option β}

theorem mapM_eq_some_iff {as : List α} {bs : List β} :
    as.mapM f = some bs ↔ List.Forall₂ (fun a b => f a = some b) as bs := by
  induction as generalizing bs with
  | nil =>
    rw [List.mapM_nil, List.forall₂_nil_left_iff]
    exact ⟨fun h => (Option.some.inj h).symm, fun h => congrArg some h.symm⟩
  | cons a as ih =>
    rw [List.mapM_cons]
    constructor
    · intro h
      obtain ⟨b, hb, h⟩ := Option.bind_eq_some_iff.mp h
      obtain ⟨bs', hbs', h⟩ := Option.bind_eq_some_iff.mp h
      obtain rfl : b :: bs' = bs := Option.some.inj h
      exact .cons hb (ih.mp hbs')
    · intro h
      cases h with
      | cons hb hbs => rw [hb, ih.mpr hbs]; rfl

theorem isSome_mapM_iff {as : List α} : (as.mapM f).isSome ↔ ∀ a ∈ as, (f a).isSome := by
  induction as with
  | nil => exact ⟨fun _ _ h => absurd h List.not_mem_nil, fun _ => rfl⟩
  | cons a as ih =>
    rw [List.mapM_cons, List.forall_mem_cons, ← ih]
    cases f a with
    | none => exact ⟨nofun, fun h => h.1⟩
    | some b =>
      cases as.mapM f with
      | none => exact ⟨nofun, fun h => h.2⟩
      | some bs => exact ⟨fun _ => ⟨rfl, rfl⟩, fun _ => rfl⟩

theorem mapM_mono {g : α → Option β} {as : List α} (h : ∀ a b, f a = some b → g a = some b)
    {bs : List β} (hbs : as.mapM f = some bs) : as.mapM g = some bs :=
  mapM_eq_some_iff.mpr ((mapM_eq_some_iff.mp hbs).imp h)

end

namespace Tree

theorem member?_eq_some_iff {α : Type} {f : Tree → Option α} {m : Option String × Tree}
    {n : String × α} : member? f m = some n ↔ m.1 = some n.1 ∧ f m.2 = some n.2 := by
  obtain ⟨key, t⟩ := m
  obtain ⟨name, a⟩ := n
  unfold member?
  rw [Option.bind_eq_some_iff]
  constructor
  · rintro ⟨key, hkey, h⟩
    obtain ⟨b, hb, h⟩ := Option.map_eq_some_iff.mp h
    obtain ⟨rfl, rfl⟩ := Prod.mk.inj h
    exact ⟨hkey, hb⟩
  · exact fun h => ⟨name, h.1, Option.map_eq_some_iff.mpr ⟨a, h.2, rfl⟩⟩

theorem isSome_member?_iff {α : Type} {f : Tree → Option α} {m : Option String × Tree} :
    (member? f m).isSome ↔ m.1.isSome ∧ (f m.2).isSome := by
  obtain ⟨key, t⟩ := m
  unfold member?
  cases key with
  | none => exact ⟨nofun, nofun⟩
  | some key => rw [Option.bind_some, Option.isSome_map]; exact ⟨fun h => ⟨rfl, h⟩, And.right⟩

/-! ## Room -/

mutual

/-- How deep arrays and objects are nested in a tree. -/
def nesting : Tree → Nat
  | array ts => 1 + elementsNesting ts
  | object ms => 1 + membersNesting ms
  | null | bool _ | number _ | string _ => 0

/-- The deepest nesting among elements. -/
def elementsNesting : List Tree → Nat
  | [] => 0
  | t :: rest => max (nesting t) (elementsNesting rest)

/-- The deepest nesting among members. -/
def membersNesting : List (Option String × Tree) → Nat
  | [] => 0
  | (_, t) :: rest => max (nesting t) (membersNesting rest)

end

theorem elementsNesting_le_iff {room : Nat} {ts : List Tree} :
    elementsNesting ts ≤ room ↔ ∀ t ∈ ts, t.nesting ≤ room := by
  induction ts with
  | nil => exact ⟨fun _ _ h => absurd h List.not_mem_nil, fun _ => Nat.zero_le _⟩
  | cons t ts ih => rw [elementsNesting, Nat.max_le, List.forall_mem_cons, ih]

theorem membersNesting_le_iff {room : Nat} {ms : List (Option String × Tree)} :
    membersNesting ms ≤ room ↔ ∀ m ∈ ms, m.2.nesting ≤ room := by
  induction ms with
  | nil => exact ⟨fun _ _ h => absurd h List.not_mem_nil, fun _ => Nat.zero_le _⟩
  | cons m ms ih => rw [membersNesting, Nat.max_le, List.forall_mem_cons, ih]

theorem nesting_array_le_iff {room : Nat} {ts : List Tree} :
    nesting (array ts) ≤ room + 1 ↔ ∀ t ∈ ts, t.nesting ≤ room := by
  rw [nesting, Nat.add_comm, Nat.add_le_add_iff_right, elementsNesting_le_iff]

theorem nesting_object_le_iff {room : Nat} {ms : List (Option String × Tree)} :
    nesting (object ms) ≤ room + 1 ↔ ∀ m ∈ ms, m.2.nesting ≤ room := by
  rw [nesting, Nat.add_comm, Nat.add_le_add_iff_right, membersNesting_le_iff]

/-! ## Values -/

/-- All literals in the tree have values. -/
inductive Decodes : Tree → Prop
  | null : Decodes .null
  | bool (b : Bool) : Decodes (.bool b)
  | number (n : Number) : Decodes (.number (some n))
  | string (s : String) : Decodes (.string (some s))
  | array {ts : List Tree} (h : ∀ t ∈ ts, Decodes t) : Decodes (.array ts)
  | object {ms : List (Option String × Tree)} (hkeys : ∀ m ∈ ms, m.1.isSome)
      (h : ∀ m ∈ ms, Decodes m.2) : Decodes (.object ms)

theorem Decodes.of_element {ts : List Tree} (h : (Tree.array ts).Decodes) {t : Tree}
    (ht : t ∈ ts) : t.Decodes := by
  cases h with
  | array h => exact h t ht

theorem Decodes.of_member {ms : List (Option String × Tree)} (h : (Tree.object ms).Decodes)
    {m : Option String × Tree} (hm : m ∈ ms) : m.2.Decodes := by
  cases h with
  | object _ h => exact h m hm

theorem Decodes.exists_key {ms : List (Option String × Tree)} (h : (Tree.object ms).Decodes)
    {m : Option String × Tree} (hm : m ∈ ms) : ∃ key, m.1 = some key := by
  cases h with
  | object hkeys _ => exact Option.isSome_iff_exists.mp (hkeys m hm)

/-- A tree has a value if its literals have values and there is room for its nesting. -/
theorem isSome_value?_iff (room : Nat) (t : Tree) :
    (t.value? room).isSome ↔ t.Decodes ∧ t.nesting ≤ room := by
  induction room generalizing t with
  | zero =>
    cases t with
    | null => exact iff_of_true rfl ⟨.null, Nat.le_refl 0⟩
    | bool b => exact iff_of_true rfl ⟨.bool b, Nat.le_refl 0⟩
    | number n => cases n with
      | none => exact iff_of_false nofun fun h => nomatch h.1
      | some n => exact iff_of_true rfl ⟨.number n, Nat.le_refl 0⟩
    | string s => cases s with
      | none => exact iff_of_false nofun fun h => nomatch h.1
      | some s => exact iff_of_true rfl ⟨.string s, Nat.le_refl 0⟩
    | array ts => exact iff_of_false nofun fun h => absurd h.2 (by rw [nesting]; omega)
    | object ms => exact iff_of_false nofun fun h => absurd h.2 (by rw [nesting]; omega)
  | succ room ih =>
    cases t with
    | null => exact iff_of_true rfl ⟨.null, Nat.zero_le _⟩
    | bool b => exact iff_of_true rfl ⟨.bool b, Nat.zero_le _⟩
    | number n => cases n with
      | none => exact iff_of_false nofun fun h => nomatch h.1
      | some n => exact iff_of_true rfl ⟨.number n, Nat.zero_le _⟩
    | string s => cases s with
      | none => exact iff_of_false nofun fun h => nomatch h.1
      | some s => exact iff_of_true rfl ⟨.string s, Nat.zero_le _⟩
    | array ts =>
      show ((ts.mapM (value? room)).map Value.array).isSome ↔ _
      rw [Option.isSome_map, isSome_mapM_iff, nesting_array_le_iff]
      simp only [ih]
      constructor
      · exact fun h => ⟨.array fun t ht => (h t ht).1, fun t ht => (h t ht).2⟩
      · exact fun h t ht => ⟨h.1.of_element ht, h.2 t ht⟩
    | object ms =>
      show ((ms.mapM (member? (value? room))).map Value.object).isSome ↔ _
      rw [Option.isSome_map, isSome_mapM_iff, nesting_object_le_iff]
      simp only [isSome_member?_iff, ih]
      constructor
      · exact fun h => ⟨.object (fun m hm => (h m hm).1) fun m hm => (h m hm).2.1,
          fun m hm => (h m hm).2.2⟩
      · exact fun h m hm => ⟨Option.isSome_iff_exists.mpr (h.1.exists_key hm), h.1.of_member hm,
          h.2 m hm⟩

/-- What a tree and its value are like, with room for so many arrays and objects. -/
inductive HasValue : Nat → Tree → Value → Prop
  | null (room : Nat) : HasValue room .null .null
  | bool (room : Nat) (b : Bool) : HasValue room (.bool b) (.bool b)
  | number (room : Nat) (n : Number) : HasValue room (.number (some n)) (.number n)
  | string (room : Nat) (s : String) : HasValue room (.string (some s)) (.string s)
  | array {room : Nat} {ts : List Tree} {vs : List Value}
      (h : List.Forall₂ (fun t v => t.value? room = some v) ts vs) :
      HasValue (room + 1) (.array ts) (.array vs)
  | object {room : Nat} {ms : List (Option String × Tree)} {es : List (String × Value)}
      (h : List.Forall₂ (fun m e => m.1 = some e.1 ∧ m.2.value? room = some e.2) ms es) :
      HasValue (room + 1) (.object ms) (.object es)

theorem hasValue_of_value? {room : Nat} {t : Tree} {v : Value} (h : t.value? room = some v) :
    HasValue room t v := by
  cases t with
  | null => cases room <;> exact Option.some.inj h ▸ .null _
  | bool b => cases room <;> exact Option.some.inj h ▸ .bool _ b
  | number n => cases room <;> cases n <;> cases h <;> exact .number _ _
  | string s => cases room <;> cases s <;> cases h <;> exact .string _ _
  | array ts =>
    cases room with
    | zero => exact absurd h nofun
    | succ room =>
      obtain ⟨vs, hvs, rfl⟩ := Option.map_eq_some_iff.mp h
      exact .array (mapM_eq_some_iff.mp hvs)
  | object ms =>
    cases room with
    | zero => exact absurd h nofun
    | succ room =>
      obtain ⟨es, hes, rfl⟩ := Option.map_eq_some_iff.mp h
      exact .object ((mapM_eq_some_iff.mp hes).imp fun _ _ => member?_eq_some_iff.mp)

/-- More room gives no other value. -/
theorem value?_mono {room room' : Nat} (h : room ≤ room') {t : Tree} {v : Value}
    (hv : t.value? room = some v) : t.value? room' = some v := by
  induction room generalizing room' t v with
  | zero =>
    cases t with
    | array ts => exact absurd hv nofun
    | object ms => exact absurd hv nofun
    | _ => cases room' <;> exact hv
  | succ room ih =>
    obtain ⟨room', rfl⟩ := Nat.exists_eq_add_one_of_ne_zero (Nat.ne_zero_of_lt h)
    have ih : ∀ t v, value? room t = some v → value? room' t = some v := fun t v =>
      ih (Nat.le_of_succ_le_succ h)
    cases t with
    | array ts =>
      obtain ⟨vs, hvs, hv⟩ := Option.map_eq_some_iff.mp hv
      exact Option.map_eq_some_iff.mpr ⟨vs, mapM_mono ih hvs, hv⟩
    | object ms =>
      obtain ⟨es, hes, hv⟩ := Option.map_eq_some_iff.mp hv
      refine Option.map_eq_some_iff.mpr ⟨es, mapM_mono (fun m e he => ?_) hes, hv⟩
      rw [member?_eq_some_iff] at he ⊢
      exact ⟨he.1, ih _ _ he.2⟩
    | _ => exact hv

end Tree

end SchemaToGo.Json
