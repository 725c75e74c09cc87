import SchemaToGo.Naming
import SchemaToGo.Proofs.Go.Word
import Mathlib.Data.List.Nodup
import Mathlib.Data.List.Perm.Subperm
import Std.Data.String.ToNat
set_option autoImplicit false

/-!
# Names that are made

Names for types and fields are words, whatever texts they are made of, and a free name is one that
is not taken.
-/

namespace SchemaToGo.Naming

/-! ## Free names -/

theorem append_number_inj {base : String} {m n : Nat}
    (h : base ++ toString m = base ++ toString n) : m = n :=
  Nat.repr_injective ((String.append_right_inj base).mp h)

theorem append_number_ne (base : String) (n : Nat) : base ++ toString n ≠ base := by
  intro h
  have hempty : toString n = "" := by
    refine (String.append_right_inj base).mp ?_
    rw [h, String.append_empty]
  exact Nat.repr_ne_empty hempty

/-- The search comes to a number of which all before it are taken, and it only takes a taken one
when it has tried as many as it may. -/
theorem firstFree_spec (taken : List String) (base : String) (bound n : Nat) :
    ∃ m, firstFree taken base bound n = base ++ toString m ∧ n ≤ m ∧
      (∀ i, n ≤ i → i < m → base ++ toString i ∈ taken) ∧
      (base ++ toString m ∈ taken → m = n + bound) := by
  induction bound generalizing n with
  | zero => exact ⟨n, rfl, Nat.le_refl n, fun i hi hlt => by omega, fun _ => rfl⟩
  | succ bound ih =>
    unfold firstFree
    dsimp only
    split
    · next htaken =>
      obtain ⟨m, hm, hle, hbefore, hlast⟩ := ih (n + 1)
      refine ⟨m, hm, Nat.le_of_succ_le hle, fun i hi hlt => ?_, fun h => ?_⟩
      · rcases Nat.eq_or_lt_of_le hi with rfl | hi
        · exact htaken
        · exact hbefore i hi hlt
      · rw [hlast h]
        omega
    · next hfree =>
      exact ⟨n, rfl, Nat.le_refl n, fun i hi hlt => by omega, fun h => absurd h hfree⟩

/-- Not all of as many numbered names can be taken as names are, since the plain one is taken. -/
theorem not_all_numbers_taken {taken : List String} {base : String} (hbase : base ∈ taken) :
    ¬ ∀ i, 1 ≤ i → i ≤ taken.length → base ++ toString i ∈ taken := by
  intro hall
  let numbered := (List.range taken.length).map fun i => base ++ toString (i + 1)
  have hnumbered : numbered.Nodup := by
    refine List.Nodup.map ?_ List.nodup_range
    intro i j hij
    have := append_number_inj hij
    omega
  have hnew : base ∉ numbered := by
    intro hmem
    obtain ⟨i, _, hi⟩ := List.mem_map.mp hmem
    exact append_number_ne base (i + 1) hi
  have hsub : base :: numbered ⊆ taken := by
    intro x hx
    rcases List.mem_cons.mp hx with rfl | hx
    · exact hbase
    · obtain ⟨i, hi, rfl⟩ := List.mem_map.mp hx
      have hlt := List.mem_range.mp hi
      exact hall (i + 1) (by omega) (by omega)
  have hlength := ((List.nodup_cons.mpr ⟨hnew, hnumbered⟩).subperm hsub).length_le
  simp only [numbered, List.length_cons, List.length_map, List.length_range] at hlength
  omega

/-- A free name is the plain one, or has the smallest number with which it is free. -/
theorem freeName_spec (taken : List String) (base : String) :
    (base ∉ taken ∧ freeName taken base = base) ∨
      (base ∈ taken ∧ ∃ n ≥ 1, freeName taken base = base ++ toString n ∧
        base ++ toString n ∉ taken ∧ ∀ i, 1 ≤ i → i < n → base ++ toString i ∈ taken) := by
  unfold freeName
  split
  · next htaken =>
    obtain ⟨m, hm, hle, hbefore, hlast⟩ := firstFree_spec taken base (taken.length - 1) 1
    refine .inr ⟨htaken, m, hle, hm, fun hmem => ?_, hbefore⟩
    have hm' := hlast hmem
    refine not_all_numbers_taken htaken fun i hi hi' => ?_
    rcases Nat.lt_or_ge i m with hlt | hge
    · exact hbefore i hi hlt
    · have : i = m := by omega
      rw [this]
      exact hmem
  · next hfree => exact .inl ⟨hfree, rfl⟩

/-- A free name is not taken. -/
theorem freeName_not_mem (taken : List String) (base : String) : freeName taken base ∉ taken := by
  rcases freeName_spec taken base with ⟨hfree, hname⟩ | ⟨_, n, _, hname, hfree, _⟩
  · rwa [hname]
  · rwa [hname]

/-! ## Words -/

/-- The name may be an identifier as far as its characters go. -/
def IsWord (name : String) : Prop := Go.isWord name.toList = true

theorem isWord_freeName {base : String} (h : IsWord base) (taken : List String) :
    IsWord (freeName taken base) := by
  rcases freeName_spec taken base with ⟨_, hname⟩ | ⟨_, n, _, hname, _⟩
  · rwa [hname]
  · rw [hname]
    unfold IsWord
    rw [String.toList_append, Nat.toString_eq_repr, Nat.toList_repr]
    refine Go.isWord_append h fun x hx => Go.isWordChar_of_isDigit ?_
    exact Nat.isDigit_of_mem_toDigits (by decide) (by decide) hx

/-- An exported name is a word unless it is empty. -/
theorem isWord_exportedName {s : String} (h : exportedName s ≠ "") : IsWord (exportedName s) := by
  have hchars : ∀ x ∈ (Text.upperCamelCase s.toList).filter Go.isWordChar, Go.isWordChar x = true :=
    fun x hx => (List.mem_filter.mp hx).2
  unfold exportedName at h ⊢
  dsimp only at h ⊢
  cases hcamel : (Text.upperCamelCase s.toList).filter Go.isWordChar with
  | nil => rw [hcamel] at h; exact absurd rfl h
  | cons c rest =>
    rw [hcamel] at hchars
    dsimp only
    unfold IsWord
    rw [String.toList_ofList, Go.isWord_iff]
    split
    · exact ⟨'X', c :: rest, rfl, by decide, hchars⟩
    · next hdigit =>
      have hc : Go.isLetter c = true := by
        have hword := hchars c List.mem_cons_self
        simpa [Go.isWordChar, hdigit] using hword
      exact ⟨c, rest, rfl, hc, fun x hx => hchars x (List.mem_cons_of_mem _ hx)⟩

theorem isWord_forType (title : Option String) (fallback : String) :
    IsWord (forType title fallback) := by
  unfold forType
  dsimp only
  split
  · next htitle =>
    cases title with
    | none => exact absurd rfl htitle
    | some t => exact isWord_exportedName htitle
  · split
    · next hfallback => exact isWord_exportedName hfallback
    · show Go.isWord "Root".toList = true
      decide

theorem isWord_forField (key : String) : IsWord (forField key) := by
  unfold forField
  dsimp only
  split
  · next hkey => exact isWord_exportedName hkey
  · show Go.isWord "Field".toList = true
    decide

end SchemaToGo.Naming
