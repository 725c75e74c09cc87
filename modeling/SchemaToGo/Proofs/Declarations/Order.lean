import SchemaToGo.Go.Source
import SchemaToGo.Proofs.Declarations.Growth
import SchemaToGo.Proofs.Document.Lookup
import SchemaToGo.Proofs.Text.Utf8
set_option autoImplicit false

/-!
# One order for the same entries

A dictionary holds the value that each key got last, in the order of the keys, and only one list of
entries is in this order: `Dict.eq_of_find?`.  Declarations are dictionaries all the way down, so
insertions that end with the same associations end with the same declarations, and these are
rendered alike: `entries_canonical`.

Normative source: SPEC_FULL.md section 4.2, and the order invariance of section 8.
-/

namespace SchemaToGo

section

variable {α : Type}

/-! ## The last value of a key -/

namespace Entries

/-- Of the associations of `k` in a list the last one is with `v`. -/
def Last (k : String) (v : α) (es : Entries α) : Prop :=
  ∃ front back, es = front ++ (k, v) :: back ∧ k ∉ back.map Prod.fst

theorem last_concat {k : String} {v : α} {es : Entries α} {e : String × α} :
    Last k v (es ++ [e]) ↔ e = (k, v) ∨ e.1 ≠ k ∧ Last k v es := by
  constructor
  · rintro ⟨front, back, heq, hback⟩
    rcases List.eq_nil_or_concat' back with rfl | ⟨back, e', rfl⟩
    · exact .inl (List.cons.inj (List.append_inj' heq rfl).2).1
    · rw [← List.cons_append, ← List.append_assoc] at heq
      obtain ⟨rfl, hlast⟩ := List.append_inj' heq rfl
      obtain rfl := (List.cons.inj hlast).1
      rw [List.map_append, List.mem_append, not_or] at hback
      exact .inr ⟨fun h => hback.2 (List.mem_singleton.mpr h.symm), front, back, rfl, hback.1⟩
  · rintro (rfl | ⟨hne, front, back, rfl, hback⟩)
    · exact ⟨es, [], rfl, List.not_mem_nil⟩
    · refine ⟨front, back ++ [e], by rw [List.append_assoc, List.cons_append], ?_⟩
      rw [List.map_append, List.mem_append, not_or]
      exact ⟨hback, fun h => hne (List.mem_singleton.mp h).symm⟩

theorem find?_of_mem {es : Entries α} (h : es.Ascending) {k : String} {v : α}
    (hmem : (k, v) ∈ es) : find? k es = some v := by
  induction es with
  | nil => cases hmem
  | cons e rest ih =>
    obtain ⟨hhead, htail⟩ := List.pairwise_cons.mp h
    rcases List.mem_cons.mp hmem with rfl | hmem
    · exact if_pos rfl
    · have hne : e.1 ≠ k := fun heq => String.lt_irrefl e.1 (heq ▸ hhead (k, v) hmem)
      exact (if_neg hne).trans (ih htail hmem)

end Entries

namespace Dict

/-- No key is greater than a later one. -/
theorem pairwise_le (d : Dict α) : d.entries.Pairwise fun a b => a.1 ≤ b.1 :=
  d.ascending.imp fun hlt => String.not_lt.mp fun hgt =>
    String.lt_irrefl _ (String.lt_trans hlt hgt)

theorem find?_eq_some_iff {d : Dict α} {k : String} {v : α} :
    d.find? k = some v ↔ (k, v) ∈ d.entries :=
  ⟨Entries.mem_of_find?, Entries.find?_of_mem d.ascending⟩

/-- The dictionary of a list keeps the last value of each key. -/
theorem mem_entries_ofList {es : List (String × α)} {k : String} {v : α} :
    (k, v) ∈ (ofList es).entries ↔ Entries.Last k v es := by
  rw [← find?_eq_some_iff]
  induction es using List.reverseRecOn with
  | nil =>
    refine ⟨nofun, ?_⟩
    rintro ⟨front, back, heq, -⟩
    exact absurd heq.symm (List.append_ne_nil_of_right_ne_nil _ (List.cons_ne_nil _ _))
  | append_singleton es e ih =>
    rw [ofList_concat, Entries.last_concat]
    by_cases hk : k = e.1
    · subst hk
      rw [find?_insert_self, Option.some.injEq, Prod.ext_iff]
      exact ⟨fun h => .inl ⟨rfl, h⟩, fun h => (h.resolve_right fun h => h.1 rfl).2⟩
    · rw [find?_insert_of_ne _ hk, ih]
      refine ⟨fun h => .inr ⟨Ne.symm hk, h⟩, fun h => (h.resolve_left fun h => ?_).2⟩
      exact hk (congrArg Prod.fst h).symm

/-! ## One order -/

theorem nodup_entries (d : Dict α) : d.entries.Nodup := by
  refine d.ascending.imp fun h heq => ?_
  exact String.lt_irrefl _ (heq ▸ h)

/-- However the entries are shuffled, sorting them by key gives them in their order: as no two have
the same key, it does not matter that equal keys could be left in any order. -/
theorem eq_entries_of_perm {d : Dict α} {es : List (String × α)} (hperm : es.Perm d.entries)
    (hsorted : es.Pairwise fun a b => a.1 ≤ b.1) : es = d.entries := by
  have hanti : ∀ a b, a ∈ es → b ∈ d.entries → a.1 ≤ b.1 → b.1 ≤ a.1 → a = b := by
    rintro ⟨k, v⟩ ⟨k', v'⟩ hmem hmem' hle hle'
    obtain rfl : k = k' := String.le_antisymm hle hle'
    have hfind := find?_eq_some_iff.mpr (hperm.mem_iff.mp hmem)
    rw [find?_eq_some_iff.mpr hmem'] at hfind
    rw [Option.some.inj hfind]
  exact List.Perm.eq_of_pairwise hanti hsorted d.pairwise_le hperm

/-- Sorting the entries by the bytes of their keys gives them in their order. -/
theorem ordered_of_perm {d : Dict α} {es : Entries α} (hperm : es.Perm d.entries) :
    es.ordered = d.entries := by
  have hle : ∀ a b : String × α,
      (!decide (Utf8.encode b.1 < Utf8.encode a.1)) = true ↔ a.1 ≤ b.1 := by
    intro a b
    rw [Bool.not_eq_true', decide_eq_false_iff_not, Utf8.encode_lt_iff, String.not_lt]
  refine eq_entries_of_perm ((List.mergeSort_perm es _).trans hperm) ?_
  have hsorted : es.ordered.Pairwise fun a b =>
      (!decide (Utf8.encode b.1 < Utf8.encode a.1)) = true := by
    refine List.pairwise_mergeSort (fun a b c hab hbc => ?_) (fun a b => ?_) es
    · rw [hle] at hab hbc ⊢
      exact String.le_trans hab hbc
    · rw [Bool.or_eq_true, hle, hle]
      exact String.le_total a.1 b.1
  exact hsorted.imp fun h => (hle _ _).mp h

/-- Dictionaries that give every key the same value are equal. -/
theorem eq_of_find? {d e : Dict α} (h : ∀ k, d.find? k = e.find? k) : d = e := by
  have hmem : ∀ a, a ∈ d.entries ↔ a ∈ e.entries := by
    rintro ⟨k, v⟩
    rw [← find?_eq_some_iff, ← find?_eq_some_iff, h]
  refine ext (eq_entries_of_perm ?_ d.pairwise_le)
  exact (List.perm_ext_iff_of_nodup d.nodup_entries e.nodup_entries).mpr hmem

end Dict

end

/-! ## Insertions -/

/-- Two structs with the same name, description and fields under each key. -/
structure Struct.Alike (s s' : Struct) : Prop where
  name : s.name = s'.name
  description : s.description = s'.description
  fields : ∀ key, s.fields.find? key = s'.fields.find? key

theorem Struct.Alike.eq {s s' : Struct} (h : s.Alike s') : s = s' := by
  cases s
  cases s'
  exact (Struct.mk.injEq ..).mpr ⟨h.name, h.description, Dict.eq_of_find? h.fields⟩

/-- What can be put into declarations: a type under its own name, or one more field into the struct
that is kept under a key. -/
inductive Insertion where
  | type (e : Declaration)
  | field (key : String) (f : Field)

namespace Declarations

/-- Add a field to the struct that is kept under a key, if there is one. -/
def insertField (d : Declarations) (key : String) (f : Field) : Declarations :=
  match d.structs.find? key with
  | some s => { d with structs := d.structs.insert key (s.insertField f) }
  | none => d

/-- Declarations after one insertion. -/
def apply (d : Declarations) : Insertion → Declarations
  | .type e => d.insert e
  | .field key f => d.insertField key f

/-- The declarations that insertions end with, one after the other. -/
def ofInsertions (made : List Insertion) : Declarations := made.foldl apply empty

/-- Two declarations with the same structs and aliases under each key. -/
structure Alike (d d' : Declarations) : Prop where
  structs : ∀ key, Option.Rel Struct.Alike (d.structs.find? key) (d'.structs.find? key)
  aliases : ∀ key, d.aliases.find? key = d'.aliases.find? key

theorem Alike.eq {d d' : Declarations} (h : d.Alike d') : d = d' := by
  have hstructs : ∀ key, d.structs.find? key = d'.structs.find? key := by
    intro key
    have hkey := h.structs key
    generalize d.structs.find? key = s at hkey
    generalize d'.structs.find? key = s' at hkey
    cases hkey with
    | none => rfl
    | some hs => rw [hs.eq]
  cases d
  cases d'
  exact (Declarations.mk.injEq ..).mpr ⟨Dict.eq_of_find? hstructs, Dict.eq_of_find? h.aliases⟩

end Declarations

/-! ## Texts of collected entries -/

namespace Go

/-- A struct declaration, written from fields that have been collected in any order. -/
def collectedStructText (s : Struct) (fields : Entries Field) : List Char :=
  line [] ++ typeComment s.name.toList s.description ++
    line ("type ".toList ++ s.name.toList ++ " struct \x7b".toList) ++
    fields.ordered.flatMap (fun e => fieldText e.2) ++ line ['}']

/-- A whole file before it is laid out, written from types and fields that have been collected in
any order. -/
def collectedText (aliases : Entries Alias) (structs : Entries Struct)
    (fields : Struct → Entries Field) (package : List Char) : List Char :=
  line generatedMarker.toList ++ line [] ++ line ("package ".toList ++ package) ++
    aliases.ordered.flatMap (fun e => aliasText e.2) ++
    structs.ordered.flatMap fun e => collectedStructText e.2 (fields e.2)

theorem collectedStructText_eq {s : Struct} {fields : Entries Field}
    (h : fields.Perm s.fields.entries) : collectedStructText s fields = structDeclText s := by
  unfold collectedStructText structDeclText Dict.values
  rw [Dict.ordered_of_perm h, List.flatMap_map]

/-- In whatever order types and fields are collected, the same text is written. -/
theorem collectedText_eq {d : Declarations} {aliases : Entries Alias} {structs : Entries Struct}
    {fields : Struct → Entries Field} (haliases : aliases.Perm d.aliases.entries)
    (hstructs : structs.Perm d.structs.entries)
    (hfields : ∀ s ∈ d.structs.values, (fields s).Perm s.fields.entries) (package : List Char) :
    collectedText aliases structs fields package = plainText d package := by
  have hall : d.structs.entries.flatMap (fun e => collectedStructText e.2 (fields e.2)) =
      d.structs.entries.flatMap fun e => structDeclText e.2 :=
    List.flatMap_congr fun e he => collectedStructText_eq (hfields e.2 (List.mem_map_of_mem he))
  unfold collectedText plainText Dict.values
  rw [Dict.ordered_of_perm haliases, Dict.ordered_of_perm hstructs, hall, List.flatMap_map,
    List.flatMap_map]

end Go

/-- The order of entries is canonical.  However keys and values are inserted, the entries ascend
strictly by the bytes of their keys and hold the last value of every key and nothing else, the keys
are the keys of these entries, and sorting the entries by key from any other order gives this one.
The text of declarations is written from entries in this order at every level, and insertions that
end with the same associations are rendered alike. -/
theorem entries_canonical :
    (∀ (α : Type) (es : List (String × α)),
      ((Dict.ofList es).entries.Pairwise fun a b => Utf8.encode a.1 < Utf8.encode b.1) ∧
      (∀ k v, (k, v) ∈ (Dict.ofList es).entries ↔ Entries.Last k v es) ∧
      (Dict.ofList es).keys = (Dict.ofList es).entries.map Prod.fst ∧
      ∀ found : List (String × α), found.Perm (Dict.ofList es).entries →
        Entries.ordered found = (Dict.ofList es).entries ∧
        ((found.Pairwise fun a b => ¬ Utf8.encode b.1 < Utf8.encode a.1) →
          found = (Dict.ofList es).entries)) ∧
    (∀ (d : Declarations) (aliases : Entries Alias) (structs : Entries Struct)
      (fields : Struct → Entries Field), aliases.Perm d.aliases.entries →
      structs.Perm d.structs.entries →
      (∀ s ∈ d.structs.values, (fields s).Perm s.fields.entries) →
      ∀ package, Go.collectedText aliases structs fields package = Go.plainText d package) ∧
    ∀ made made' : List Insertion,
      (Declarations.ofInsertions made).Alike (Declarations.ofInsertions made') →
      ∀ package, Go.render (Declarations.ofInsertions made) package =
        Go.render (Declarations.ofInsertions made') package := by
  refine ⟨fun α es => ⟨(Dict.ofList es).entries_pairwise_encode,
      fun k v => Dict.mem_entries_ofList, rfl, fun found hperm =>
      ⟨Dict.ordered_of_perm hperm, fun hsorted => ?_⟩⟩,
    fun d aliases structs fields haliases hstructs hfields =>
      Go.collectedText_eq haliases hstructs hfields,
    fun made made' halike package => by rw [halike.eq]⟩
  refine Dict.eq_entries_of_perm hperm (hsorted.imp fun h => ?_)
  exact String.not_lt.mp fun hlt => h (Utf8.encode_lt hlt)

/-- Keys that are inserted out of order, one of them twice; fields that are collected in another
order than that of their names; and a struct with two fields that are added in either order, before
or after another type. -/
theorem entries_canonical_twoOrders :
    let s : Struct := ((Struct.named "S").insertField ⟨"A", "a", "int", true, none⟩).insertField
      ⟨"B", "b", "bool", true, none⟩
    Entries.ordered [("b", 3), ("a", 2)] =
        (Dict.ofList [("b", 1), ("a", 2), ("b", 3)]).entries ∧
      [("a", 2), ("b", 3)] = (Dict.ofList [("b", 1), ("a", 2), ("b", 3)]).entries ∧
      (∀ package, Go.collectedText [] [("S", s)] (fun s => s.fields.entries.reverse) package =
        Go.plainText ((∅ : Declarations).insertStruct s) package) ∧
      ∀ package,
        Go.render (Declarations.ofInsertions
          [.type (.struct (.named "S")), .type (.alias ⟨"T", "int"⟩),
            .field "S" ⟨"A", "a", "int", true, none⟩, .field "S" ⟨"B", "b", "bool", true, none⟩])
          package =
        Go.render (Declarations.ofInsertions
          [.type (.struct (.named "S")), .field "S" ⟨"B", "b", "bool", true, none⟩,
            .field "S" ⟨"A", "a", "int", true, none⟩, .type (.alias ⟨"T", "int"⟩)])
          package := by
  obtain ⟨hentries, hcollected, hrender⟩ := entries_canonical
  have hsort := (hentries Nat [("b", 1), ("a", 2), ("b", 3)]).2.2.2
  refine ⟨(hsort _ (by decide +kernel)).1, (hsort _ (by decide +kernel)).2 (by decide +kernel), ?_,
    hrender _ _ ?_⟩
  · exact hcollected _ [] [("S", _)] _ (.refl _) (.refl _) fun s _ => List.reverse_perm _
  · refine ⟨fun key => ?_, fun _ => rfl⟩
    show Option.Rel _ (if "S" = key then _ else none) (if "S" = key then _ else none)
    split
    · exact .some ⟨rfl, rfl, fun _ => rfl⟩
    · exact .none

end SchemaToGo
