import SchemaToGo.Text.Utf8
set_option autoImplicit false

/-!
# Dictionaries ordered by key

Associations of texts to values.  Entries stand in ascending order of their keys, compared code
point by code point, which is the order of their UTF-8 bytes; so a dictionary has one form for
each set of associations, whatever order they were inserted in.

`Entries` is the plain list of associations with its operations.  `Dict` adds the invariant that
the keys ascend strictly.

Normative source: SPEC_FULL.md section 4.2.  The ordering utility starts from entries in any order
and sorts them by the bytes of their keys, as `Entries.ordered` does.  A dictionary keeps its
entries in that order all the time, so `Dict.entries` and `Dict.keys` stand for its results.
-/

namespace SchemaToGo

/-- Associations of keys to values, as a list. -/
abbrev Entries (α : Type) := List (String × α)

namespace Entries

variable {α : Type}

/-- Associate `k` with `v`.  An earlier value of the same key is replaced. -/
def insert (k : String) (v : α) : Entries α → Entries α
  | [] => [(k, v)]
  | (k', v') :: rest =>
    if k < k' then (k, v) :: (k', v') :: rest
    else if k' < k then (k', v') :: insert k v rest
    else (k, v) :: rest

/-- The value of a key. -/
def find? (k : String) : Entries α → Option α
  | [] => none
  | (k', v) :: rest => if k' = k then some v else find? k rest

/-- The entries in the order of the bytes of their keys, in whatever order they were collected. -/
def ordered (es : Entries α) : Entries α :=
  es.mergeSort fun a b => !decide (Utf8.encode b.1 < Utf8.encode a.1)

/-- The entries of all other keys. -/
def erase (k : String) (es : Entries α) : Entries α :=
  es.filter fun e => e.1 ≠ k

/-- The keys ascend strictly, so no key occurs twice. -/
def Ascending (es : Entries α) : Prop := es.Pairwise fun a b => a.1 < b.1

theorem ascending_nil : Ascending ([] : Entries α) := List.Pairwise.nil

/-- The keys after an insertion are the inserted key and the keys before. -/
theorem mem_keys_insert {k : String} {v : α} {es : Entries α} {x : String} :
    x ∈ (insert k v es).map Prod.fst ↔ x = k ∨ x ∈ es.map Prod.fst := by
  induction es with
  | nil => simp [insert]
  | cons e rest ih =>
    obtain ⟨k', v'⟩ := e
    simp only [insert]
    split
    · simp
    · split
      · simp only [List.map_cons, List.mem_cons, ih]
        exact or_left_comm
      · next h₁ h₂ =>
        have hk : k' = k := String.le_antisymm (String.not_lt.mp h₁) (String.not_lt.mp h₂)
        subst hk
        simp

/-- An insertion brings in no other entry than the inserted one. -/
theorem mem_of_mem_insert {k : String} {v : α} {es : Entries α} {e : String × α}
    (h : e ∈ insert k v es) : e = (k, v) ∨ e ∈ es := by
  induction es with
  | nil => exact .inl (List.mem_singleton.mp h)
  | cons head rest ih =>
    obtain ⟨k', v'⟩ := head
    simp only [insert] at h
    split at h
    · exact List.mem_cons.mp h
    · split at h
      · rcases List.mem_cons.mp h with rfl | h
        · exact .inr List.mem_cons_self
        · exact (ih h).imp_right (List.mem_cons_of_mem _)
      · rcases List.mem_cons.mp h with rfl | h
        · exact .inl rfl
        · exact .inr (List.mem_cons_of_mem _ h)

theorem ascending_insert {k : String} {v : α} {es : Entries α} (h : es.Ascending) :
    (insert k v es).Ascending := by
  induction es with
  | nil => simp [insert, Ascending]
  | cons e rest ih =>
    obtain ⟨k', v'⟩ := e
    obtain ⟨hhead, htail⟩ := List.pairwise_cons.mp h
    simp only [insert]
    split
    · next hlt =>
      refine List.pairwise_cons.mpr ⟨?_, h⟩
      intro b hb
      rcases List.mem_cons.mp hb with rfl | hb
      · exact hlt
      · exact String.lt_trans hlt (hhead b hb)
    · split
      · next hlt =>
        refine List.pairwise_cons.mpr ⟨?_, ih htail⟩
        intro b hb
        have hb' : b.1 ∈ (insert k v rest).map Prod.fst := List.mem_map_of_mem hb
        rcases mem_keys_insert.mp hb' with hb' | hb'
        · rw [hb']; exact hlt
        · obtain ⟨c, hc, hcb⟩ := List.mem_map.mp hb'
          rw [← hcb]; exact hhead c hc
      · next h₁ h₂ =>
        have hk : k' = k := String.le_antisymm (String.not_lt.mp h₁) (String.not_lt.mp h₂)
        subst hk
        exact List.pairwise_cons.mpr ⟨hhead, htail⟩

/-- An insertion adds one entry and drops the entry that had its key. -/
theorem insert_perm {k : String} {v : α} {es : Entries α} (h : es.Ascending) :
    (insert k v es).Perm ((k, v) :: erase k es) := by
  have hkeep : ∀ rest : Entries α, (∀ e ∈ rest, k < e.1) → erase k rest = rest := by
    intro rest hrest
    refine List.filter_eq_self.mpr fun e he => decide_eq_true fun heq => ?_
    exact String.lt_irrefl k (heq ▸ hrest e he)
  induction es with
  | nil => exact .refl _
  | cons e rest ih =>
    obtain ⟨k', v'⟩ := e
    obtain ⟨hhead, htail⟩ := List.pairwise_cons.mp h
    simp only [insert]
    split
    · next hlt =>
      rw [hkeep]
      intro b hb
      rcases List.mem_cons.mp hb with rfl | hb
      · exact hlt
      · exact String.lt_trans hlt (hhead b hb)
    · split
      · next hgt =>
        have hne : k' ≠ k := fun heq => String.lt_irrefl k (heq ▸ hgt)
        have herase : erase k ((k', v') :: rest) = (k', v') :: erase k rest :=
          List.filter_cons_of_pos (decide_eq_true hne)
        rw [herase]
        exact ((ih htail).cons _).trans (.swap _ _ _)
      · next h₁ h₂ =>
        have hk : k' = k := String.le_antisymm (String.not_lt.mp h₁) (String.not_lt.mp h₂)
        subst hk
        have herase : erase k' ((k', v') :: rest) = erase k' rest :=
          List.filter_cons_of_neg (by simp)
        rw [herase, hkeep rest hhead]

theorem ascending_erase {k : String} {es : Entries α} (h : es.Ascending) :
    (erase k es).Ascending := List.Pairwise.filter _ h

theorem find?_insert_self (k : String) (v : α) (es : Entries α) :
    find? k (insert k v es) = some v := by
  induction es with
  | nil => simp [insert, find?]
  | cons e rest ih =>
    obtain ⟨k', v'⟩ := e
    simp only [insert]
    split
    · simp [find?]
    · split
      · next h =>
        have hne : k' ≠ k := fun heq => String.lt_irrefl k (heq ▸ h)
        simp [find?, hne, ih]
      · simp [find?]

theorem find?_insert_of_ne {k x : String} (hne : x ≠ k) (v : α) (es : Entries α) :
    find? x (insert k v es) = find? x es := by
  induction es with
  | nil => simp [insert, find?, Ne.symm hne]
  | cons e rest ih =>
    obtain ⟨k', v'⟩ := e
    simp only [insert]
    split
    · simp [find?, Ne.symm hne]
    · split
      · simp [find?, ih]
      · next h₁ h₂ =>
        have hk : k' = k := String.le_antisymm (String.not_lt.mp h₁) (String.not_lt.mp h₂)
        simp [find?, hk, Ne.symm hne]

theorem isSome_find? {k : String} {es : Entries α} :
    (find? k es).isSome ↔ k ∈ es.map Prod.fst := by
  induction es with
  | nil => simp [find?]
  | cons e rest ih =>
    rw [find?, List.map_cons, List.mem_cons, ← ih]
    split
    · next h => exact iff_of_true rfl (.inl h.symm)
    · next h => exact ⟨.inr, fun hk => hk.resolve_left (Ne.symm h)⟩

end Entries

/-- A dictionary: associations with strictly ascending keys. -/
structure Dict (α : Type) where
  entries : Entries α
  ascending : entries.Ascending
  deriving Repr

namespace Dict

variable {α : Type}

/-- The dictionary without entries. -/
def empty : Dict α := ⟨[], Entries.ascending_nil⟩

instance : Inhabited (Dict α) := ⟨empty⟩

instance : EmptyCollection (Dict α) := ⟨empty⟩

/-- Associate `k` with `v`, replacing an earlier value. -/
def insert (d : Dict α) (k : String) (v : α) : Dict α :=
  ⟨d.entries.insert k v, Entries.ascending_insert d.ascending⟩

/-- Drop the entry of `k`, if there is one. -/
def erase (d : Dict α) (k : String) : Dict α :=
  ⟨d.entries.erase k, Entries.ascending_erase d.ascending⟩

/-- The value of `k`. -/
def find? (d : Dict α) (k : String) : Option α := d.entries.find? k

/-- The dictionary has an entry for `k`. -/
def contains (d : Dict α) (k : String) : Bool := (d.find? k).isSome

/-- The keys in ascending order. -/
def keys (d : Dict α) : List String := d.entries.map Prod.fst

/-- The values in the order of their keys. -/
def values (d : Dict α) : List α := d.entries.map Prod.snd

/-- The dictionary has no entries. -/
def isEmpty (d : Dict α) : Bool := d.entries.isEmpty

/-- The dictionary of a list of associations; of several with one key the last one stays. -/
def ofList (es : List (String × α)) : Dict α :=
  es.foldl (fun d e => d.insert e.1 e.2) empty

@[ext] theorem ext {d e : Dict α} (h : d.entries = e.entries) : d = e := by
  cases d; cases e; cases h; rfl

@[simp] theorem find?_insert_self (d : Dict α) (k : String) (v : α) :
    (d.insert k v).find? k = some v := Entries.find?_insert_self k v d.entries

theorem find?_insert_of_ne (d : Dict α) {k x : String} (hne : x ≠ k) (v : α) :
    (d.insert k v).find? x = d.find? x := Entries.find?_insert_of_ne hne v d.entries

theorem mem_keys_insert {d : Dict α} {k x : String} {v : α} :
    x ∈ (d.insert k v).keys ↔ x = k ∨ x ∈ d.keys := Entries.mem_keys_insert

theorem isSome_find? {d : Dict α} {k : String} : (d.find? k).isSome ↔ k ∈ d.keys :=
  Entries.isSome_find?

theorem mem_of_mem_insert {d : Dict α} {k : String} {v : α} {e : String × α}
    (h : e ∈ (d.insert k v).entries) : e = (k, v) ∨ e ∈ d.entries :=
  Entries.mem_of_mem_insert h

/-- An insertion adds one value and drops at most one. -/
theorem values_insert_perm (d : Dict α) (k : String) (v : α) :
    ∃ kept, (d.insert k v).values.Perm (v :: kept) ∧ kept.Sublist d.values := by
  refine ⟨(d.entries.erase k).map Prod.snd, ?_, List.filter_sublist.map _⟩
  exact (Entries.insert_perm d.ascending).map Prod.snd

theorem mem_values_of_mem_insert {d : Dict α} {k : String} {v x : α}
    (h : x ∈ (d.insert k v).values) : x = v ∨ x ∈ d.values := by
  obtain ⟨e, he, rfl⟩ := List.mem_map.mp h
  rcases mem_of_mem_insert he with rfl | he
  · exact .inl rfl
  · exact .inr (List.mem_map_of_mem he)

@[simp] theorem values_empty : (∅ : Dict α).values = [] := rfl

@[simp] theorem entries_empty : (∅ : Dict α).entries = [] := rfl

end Dict

end SchemaToGo
