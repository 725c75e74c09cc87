import SchemaToGo.Text.Utf8
import SchemaToGo.Dict
set_option autoImplicit false

/-!
# The order of texts is that of their bytes

Texts are compared code point by code point.  UTF-8 keeps this order: of two different characters
the greater one has the greater byte at the first place where their bytes differ.
-/

namespace SchemaToGo

namespace Utf8

theorem utf8EncodeChar_ne_nil (c : Char) : String.utf8EncodeChar c ≠ [] := by
  unfold String.utf8EncodeChar
  dsimp only
  repeat' split
  all_goals exact List.cons_ne_nil _ _

/-- The bytes of a greater character are greater, whatever follows them. -/
theorem utf8EncodeChar_lt {c d : Char} (h : c < d) (x y : List UInt8) :
    String.utf8EncodeChar c ++ x < String.utf8EncodeChar d ++ y := by
  have hlt : c.val.toNat < d.val.toNat := UInt32.lt_iff_toNat_lt.mp h
  have hbound : d.val.toNat < 0x110000 := by
    have := d.valid
    unfold UInt32.isValidChar Nat.isValidChar at this
    omega
  unfold String.utf8EncodeChar
  generalize c.val.toNat = v at hlt
  generalize d.val.toNat = w at hlt hbound
  dsimp only
  -- bytes are compared one by one, and the first that differ decide
  repeat' split
  all_goals
    simp only [List.cons_append, List.nil_append, List.cons_lt_cons_iff, UInt8.lt_iff_toNat_lt,
      ← UInt8.toNat_inj, UInt8.toNat_ofNat']
    simp (disch := omega) only [Nat.mod_eq_of_lt]
    omega

/-- The bytes of a greater text are greater. -/
theorem encode_lt {s t : String} (h : s < t) : encode s < encode t := by
  unfold encode
  rw [String.lt_iff] at h
  generalize s.toList = cs at h
  generalize t.toList = ds at h
  induction cs generalizing ds with
  | nil =>
    cases ds with
    | nil => cases h
    | cons d ds =>
      obtain ⟨b, bytes, hd⟩ := List.exists_cons_of_ne_nil (utf8EncodeChar_ne_nil d)
      rw [List.flatMap_cons, hd]
      exact List.nil_lt_cons _ _
  | cons c cs ih =>
    cases ds with
    | nil => cases h
    | cons d ds =>
      rw [List.flatMap_cons, List.flatMap_cons]
      rcases List.cons_lt_cons_iff.mp h with hcd | ⟨rfl, hrest⟩
      · exact utf8EncodeChar_lt hcd _ _
      · exact List.append_left_lt (ih ds hrest)

theorem encode_lt_iff {s t : String} : encode s < encode t ↔ s < t := by
  refine ⟨fun h => ?_, encode_lt⟩
  by_cases hlt : s < t
  · exact hlt
  · rcases Std.le_iff_lt_or_eq.mp (String.not_lt.mp hlt) with hgt | rfl
    · exact absurd h (List.lt_asymm (encode_lt hgt))
    · exact absurd h (List.lt_irrefl _)

end Utf8

namespace Dict

/-- The entries ascend by the bytes of their keys. -/
theorem entries_pairwise_encode {α : Type} (d : Dict α) :
    d.entries.Pairwise fun a b => Utf8.encode a.1 < Utf8.encode b.1 :=
  d.ascending.imp Utf8.encode_lt

end Dict

end SchemaToGo
