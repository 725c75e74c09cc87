import SchemaToGo.Proofs.Json.Returns
import SchemaToGo.Schema.Parse
import Mathlib.Data.List.Nodup
set_option autoImplicit false

/-!
# Keys of definitions

Schemas that are read keep the last one of several definitions with one key, so no key occurs
twice among the definitions of a schema.
-/

namespace SchemaToGo

theorem Entries.Ascending.nodup_keys {α : Type} {es : Entries α} (h : es.Ascending) :
    (es.map Prod.fst).Nodup := by
  refine List.Pairwise.map Prod.fst (fun e e' hlt heq => ?_) h
  exact String.lt_irrefl e.1 (by rw [heq] at hlt ⊢; exact hlt)

namespace Schema

open Json Json.Reader

/-- No key occurs twice in a container of definitions. -/
def Keyed (s : Schema) : Prop :=
  ((s.definitions.getD []).map Prod.fst).Nodup ∧ ((s.defs.getD []).map Prod.fst).Nodup

theorem Keyed.empty : Keyed empty := ⟨List.nodup_nil, List.nodup_nil⟩

theorem named_returns (bound : Nat) (schema : Option (Reader Schema)) :
    Returns Entries.Ascending (named bound schema) := by
  unfold named
  refine .after fun b => ?_
  cases b with
  | none => exact .failNext _ _
  | some b =>
    dsimp only
    split
    · cases schema with
      | none => exact .failNext _ _
      | some schema =>
        refine .after fun _ => members_returns (fun es key hes => ?_) Entries.ascending_nil
        exact .after fun _ => .after fun s => .pure (Entries.ascending_insert hes)
    · exact .refuseKind _ _ _

/-- Whatever keyword is read, the definitions stay without repeated keys. -/
theorem assign_returns {parts : Parts Reader}
    (hnamed : Returns (fun o => ∀ es, o = some es → Entries.Ascending es) parts.named) {s : Schema}
    (hs : s.Keyed) (k : Keyword) : Returns Keyed (k.assign parts s) := by
  have hkeys : ∀ o : Option (List (String × Schema)),
      (∀ es, o = some es → Entries.Ascending es) → ((o.getD []).map Prod.fst).Nodup := by
    intro o ho
    cases o with
    | none => exact List.nodup_nil
    | some es => exact (ho es rfl).nodup_keys
  cases k with
  | definitions => exact hnamed.bind fun o ho => .pure ⟨hkeys o ho, hs.2⟩
  | defs => exact hnamed.bind fun o ho => .pure ⟨hs.1, hkeys o ho⟩
  | _ => exact .after fun _ => .pure hs

theorem readElements_returns {parts : Parts Reader}
    (hnamed : Returns (fun o => ∀ es, o = some es → Entries.Ascending es) parts.named)
    (keywords : List Keyword) {s : Schema} (hs : s.Keyed) :
    Returns Keyed (readElements parts keywords s) := by
  induction keywords generalizing s with
  | nil => exact .after fun _ => .pure hs
  | cons k keywords ih =>
    unfold readElements
    refine .after fun b => ?_
    cases b with
    | none => exact .failNext _ _
    | some b =>
      dsimp only
      split
      · exact .after fun _ => .pure hs
      · split
        · refine .after fun _ => .after fun b => ?_
          cases b with
          | none => exact .failNext _ _
          | some b =>
            dsimp only
            split
            · exact .failNext _ _
            · exact (assign_returns hnamed hs k).bind fun s' hs' => ih hs'
        · exact .failNext _ _

theorem readList_returns {parts : Parts Reader}
    (hnamed : Returns (fun o => ∀ es, o = some es → Entries.Ascending es) parts.named) :
    Returns Keyed (readList parts) := by
  unfold readList
  refine .after fun b => ?_
  cases b with
  | none => exact .failNext _ _
  | some b =>
    dsimp only
    split
    · exact .after fun _ => .pure .empty
    · exact (assign_returns hnamed .empty _).bind fun s hs => readElements_returns hnamed _ hs

theorem readMember_returns {parts : Parts Reader}
    (hnamed : Returns (fun o => ∀ es, o = some es → Entries.Ascending es) parts.named)
    (bound : Nat) {state : Schema × List Keyword} (hstate : state.1.Keyed) (name : String) :
    Returns (fun state => state.1.Keyed) (readMember bound parts state name) := by
  unfold readMember
  dsimp only
  cases Keyword.ofName? name with
  | none => exact .after fun _ => .after fun _ => .pure hstate
  | some k =>
    dsimp only
    split
    · intro c a c' hrun
      cases hrun
    · refine .after fun _ => ?_
      exact (assign_returns hnamed hstate k).bind fun s hs => .pure hs

theorem readWith_returns {parts : Option ((Cursor → Nat) → Parts Reader)}
    (hnamed : ∀ p, parts = some p → ∀ ending,
      Returns (fun o => ∀ es, o = some es → Entries.Ascending es) (p ending).named)
    (bound : Nat) : Returns Keyed (readWith bound parts) := by
  unfold readWith
  refine .after fun b => ?_
  cases b with
  | none => exact .failNext _ _
  | some b =>
    dsimp only
    split
    · cases parts with
      | none => exact .failNext _ _
      | some parts =>
        refine .after fun _ => ?_
        have hmember : ∀ (state : Schema × List Keyword) (name : String), state.1.Keyed →
            Returns (fun state => state.1.Keyed)
              (readMember bound (parts objectEndIndex) state name) :=
          fun _ name hstate =>
            readMember_returns (hnamed parts rfl objectEndIndex) bound hstate name
        exact (members_returns hmember Keyed.empty).bind fun state hstate => .pure hstate
    · split
      · cases parts with
        | none => exact .failNext _ _
        | some parts =>
          exact .after fun _ => readList_returns (hnamed parts rfl listEndIndex)
      · exact .refuseKind _ _ _

theorem read_returns (bound room : Nat) : Returns Keyed (read bound room) := by
  match room with
  | 0 =>
    refine readWith_returns (fun p hp => ?_) bound
    cases hp
  | 1 =>
    refine readWith_returns (fun p hp ending => ?_) bound
    cases hp
    exact .nullable (named_returns bound _)
  | room + 2 =>
    refine readWith_returns (fun p hp ending => ?_) bound
    cases hp
    exact .nullable (named_returns bound _)

/-- A schema that is parsed has no key twice among its definitions. -/
theorem keyed_of_parse {document text : String} {s : Schema} (h : parse document text = .ok s) :
    s.Keyed := by
  unfold parse at h
  dsimp only at h
  cases hread : readText (Utf8.encode text) with
  | error failure => rw [hread] at h; cases h
  | ok s' =>
    rw [hread] at h
    cases h
    unfold readText at hread
    cases hrun : read (Utf8.encode text).length nestingLimit
        (Cursor.start (Utf8.encode text)) with
    | error e => rw [hrun] at hread; cases hread
    | ok x =>
      rw [hrun] at hread
      obtain ⟨s', rest⟩ := x
      have hkeyed := read_returns _ _ _ _ _ hrun
      simp only [bind, Except.bind] at hread
      split at hread
      · cases hread
        exact hkeyed
      · cases hread

end Schema

end SchemaToGo
