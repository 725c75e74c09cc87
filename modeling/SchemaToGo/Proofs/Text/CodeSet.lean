import SchemaToGo.Text.CodeSet
import Mathlib.Data.List.Chain
import Mathlib.Data.Nat.Bitwise
import Mathlib.Tactic.Ring
set_option autoImplicit false

/-!
# Tables as numbers

Statements about whole tables of code points are checked on numbers: the code points of a table are
the places of the ones in a binary numeral, so that one operation on numbers compares two tables.
The numeral of a run is not written one by one but computed from its first and last code points.
-/

namespace SchemaToGo.Text

/-! ## Ones at equal distances -/

/-- So many ones, one every `stride` places. -/
def comb (stride count : Nat) : Nat := (2 ^ (stride * count) - 1) / (2 ^ stride - 1)

theorem comb_zero (stride : Nat) : comb stride 0 = 0 := by
  unfold comb
  rw [Nat.mul_zero, Nat.pow_zero, Nat.sub_self, Nat.zero_div]

/-- One more one is put before the others. -/
theorem comb_succ {stride : Nat} (h : 0 < stride) (count : Nat) :
    comb stride (count + 1) = 2 ^ stride * comb stride count + 1 := by
  obtain ⟨b, hb⟩ : ∃ b, 2 ^ stride = b + 1 :=
    ⟨2 ^ stride - 1, (Nat.sub_add_cancel Nat.one_le_two_pow).symm⟩
  have hpos : 0 < b := by
    have := Nat.one_lt_two_pow (Nat.ne_of_gt h)
    omega
  -- the division leaves no remainder, and the quotients come one of the other
  have hquotient : ∀ {count q}, 2 ^ (stride * count) = b * q + 1 → comb stride count = q := by
    intro count q hq
    unfold comb
    rw [hq, hb, Nat.add_sub_cancel, Nat.add_sub_cancel, Nat.mul_div_cancel_left q hpos]
  have hstep : ∀ {count q}, 2 ^ (stride * count) = b * q + 1 →
      2 ^ (stride * (count + 1)) = b * (2 ^ stride * q + 1) + 1 := by
    intro count q hq
    rw [Nat.mul_succ, Nat.pow_add, hq, hb]
    ring
  have hexact : ∃ q, 2 ^ (stride * count) = b * q + 1 := by
    induction count with
    | zero => exact ⟨0, rfl⟩
    | succ count ih =>
      obtain ⟨q, hq⟩ := ih
      exact ⟨_, hstep hq⟩
  obtain ⟨q, hq⟩ := hexact
  rw [hquotient hq, hquotient (hstep hq)]

theorem testBit_comb {stride : Nat} (h : 0 < stride) (count n : Nat) :
    (comb stride count).testBit n = true ↔ n % stride = 0 ∧ n / stride < count := by
  induction count generalizing n with
  | zero => simp [comb_zero]
  | succ count ih =>
    rw [comb_succ h, Nat.testBit_two_pow_mul_add _ (Nat.one_lt_two_pow (Nat.ne_of_gt h))]
    split
    · next hlt =>
      rw [Nat.testBit_one_eq_true_iff_self_eq_zero, Nat.mod_eq_of_lt hlt, Nat.div_eq_of_lt hlt]
      omega
    · next hge =>
      rw [ih, Nat.mod_eq_sub_mod (Nat.not_lt.mp hge), Nat.div_eq_sub_div h (Nat.not_lt.mp hge)]
      omega

/-! ## Comparing numerals -/

/-- A number has all ones of another one that adds nothing to it. -/
theorem testBit_of_or {m k n : Nat} (hm : m.testBit n = true) (h : m ||| k = k) :
    k.testBit n = true := by
  rw [← h, Nat.testBit_or, hm, Bool.true_or]

/-- A number has no one of another one if they have none in common. -/
theorem testBit_of_and {m k n : Nat} (hm : m.testBit n = true) (h : m &&& k = 0) :
    k.testBit n = false := by
  have hboth := Nat.testBit_and m k n
  rw [h, hm, Nat.zero_testBit, Bool.true_and] at hboth
  exact hboth.symm

/-! ## Numerals that are moved -/

/-- The ones of the first number that are no ones of the second. -/
def without (m skip : Nat) : Nat := m ^^^ (m &&& skip)

theorem testBit_without {m skip n : Nat} (h : m.testBit n = true) (hskip : skip.testBit n = false) :
    (without m skip).testBit n = true := by
  unfold without
  rw [Nat.testBit_xor, Nat.testBit_and, h, hskip]
  rfl

/-- The number with all its ones moved by a distance. -/
def moved (m : Nat) (distance : Int) : Nat :=
  if 0 ≤ distance then m <<< distance.toNat else m >>> (-distance).toNat

theorem testBit_moved {m n : Nat} {distance : Int} (h : m.testBit n = true)
    (hland : 0 ≤ n + distance) : (moved m distance).testBit (Int.toNat (n + distance)) = true := by
  unfold moved
  split
  · next hpos =>
    have hback : Int.toNat (n + distance) - distance.toNat = n := by omega
    rw [Nat.testBit_shiftLeft, hback, h, Bool.and_true, decide_eq_true_eq]
    omega
  · next hneg =>
    have hback : (-distance).toNat + Int.toNat (n + distance) = n := by omega
    rw [Nat.testBit_shiftRight, hback, h]

/-! ## Numerals of runs -/

namespace Run

/-- The number whose ones are the code points of the run. -/
def mask (r : Run) : Nat :=
  if r.last < r.first then 0
  else if r.stride = 0 then 2 ^ r.first
  else comb r.stride ((r.last - r.first) / r.stride + 1) <<< r.first

theorem testBit_mask (r : Run) (n : Nat) : r.mask.testBit n = true ↔ r.contains n = true := by
  rw [r.contains_iff]
  unfold mask
  split
  · next hempty =>
    rw [Nat.zero_testBit]
    refine iff_of_false (by simp) ?_
    rintro ⟨hfirst, hlast, _⟩
    omega
  · next hrun =>
    split
    · next hstride =>
      rw [Nat.testBit_two_pow, decide_eq_true_eq, hstride, Nat.mod_zero]
      omega
    · next hstride =>
      have hpos : 0 < r.stride := Nat.pos_of_ne_zero hstride
      rw [Nat.testBit_shiftLeft, Bool.and_eq_true, decide_eq_true_eq, testBit_comb hpos,
        Nat.lt_succ_iff]
      constructor
      · rintro ⟨hfirst, hmod, hdiv⟩
        have hle : r.stride * ((n - r.first) / r.stride) ≤ r.last - r.first :=
          Nat.le_trans (Nat.mul_le_mul_left _ hdiv) (Nat.mul_div_le _ _)
        rw [Nat.mul_div_cancel' (Nat.dvd_of_mod_eq_zero hmod)] at hle
        exact ⟨hfirst, by omega, hmod⟩
      · rintro ⟨hfirst, hlast, hmod⟩
        exact ⟨hfirst, hmod, Nat.div_le_div_right (by omega)⟩

/-- The run of one code point. -/
def single (n : Nat) : Run := ⟨n, n, 1⟩

theorem single_contains (n : Nat) : (single n).contains n = true := by
  simp [single, contains]

end Run

/-! ## Numerals of tables -/

namespace CodeSet

/-- The code point is in a run of the table. -/
def Has (s : CodeSet) (n : Nat) : Prop := ∃ r ∈ s, r.contains n = true

theorem has_append {s t : CodeSet} {n : Nat} : (s ++ t).Has n ↔ s.Has n ∨ t.Has n := by
  unfold Has
  simp only [List.mem_append, or_and_right, exists_or]

/-- The number whose ones are the code points of the table. -/
def mask (s : CodeSet) : Nat := s.foldr (fun r m => r.mask ||| m) 0

theorem testBit_mask (s : CodeSet) (n : Nat) : s.mask.testBit n = true ↔ s.Has n := by
  unfold Has
  induction s with
  | nil => simp [mask]
  | cons r s ih =>
    have hcons : mask (r :: s) = r.mask ||| mask s := rfl
    rw [hcons, Nat.testBit_or, Bool.or_eq_true, Run.testBit_mask, ih, List.exists_mem_cons_iff]

/-- A table holds all of another one if that adds nothing to its numeral. -/
theorem Has.of_or {s t : CodeSet} {n : Nat} (hn : s.Has n) (h : s.mask ||| t.mask = t.mask) :
    t.Has n :=
  (testBit_mask t n).mp (testBit_of_or ((testBit_mask s n).mpr hn) h)

/-- A table holds nothing of another one if their numerals have no one in common. -/
theorem Has.not_of_and {s t : CodeSet} {n : Nat} (hn : s.Has n) (h : s.mask &&& t.mask = 0) :
    ¬ t.Has n := by
  rw [← testBit_mask, testBit_of_and ((testBit_mask s n).mpr hn) h]
  exact Bool.false_ne_true

/-! ## Looking up code points -/

/-- The runs of the table stand in ascending order of their first code points. -/
def IsAscending (s : CodeSet) : Prop := s.IsChain fun r t => r.first ≤ t.first

instance (s : CodeSet) : Decidable s.IsAscending :=
  inferInstanceAs (Decidable (s.IsChain _))

/-- All code points of the table are characters. -/
def IsScalar (s : CodeSet) : Prop :=
  ∀ r ∈ s, r.last < 0xD800 ∨ 0xDFFF < r.first ∧ r.last < 0x110000

instance (s : CodeSet) : Decidable s.IsScalar :=
  inferInstanceAs (Decidable (∀ r ∈ s, _))

variable {s t : CodeSet} {n : Nat}

theorem has_of_contains {c : Char} (h : s.contains c = true) : s.Has c.toNat :=
  exists_run_of_containsCode h

/-- The lookup does not stop before the run of a code point. -/
theorem containsCode_of_has (hs : s.IsAscending) (h : s.Has n) : s.containsCode n = true := by
  induction s with
  | nil =>
    obtain ⟨t, ht, _⟩ := h
    cases ht
  | cons r rest ih =>
    obtain ⟨t, ht, hn⟩ := h
    obtain ⟨hfirst, _, _⟩ := (t.contains_iff n).mp hn
    have hpairwise := List.isChain_iff_pairwise.mp hs
    have hle : r.first ≤ n := by
      rcases List.mem_cons.mp ht with rfl | ht
      · exact hfirst
      · exact Nat.le_trans (List.rel_of_pairwise_cons hpairwise ht) hfirst
    rw [containsCode, if_neg (Nat.not_lt.mpr hle), Bool.or_eq_true]
    rcases List.mem_cons.mp ht with rfl | ht
    · exact .inl hn
    · exact .inr (ih hs.of_cons ⟨t, ht, hn⟩)

theorem toNat_ofNat_of_isValidChar (h : n.isValidChar) : (Char.ofNat n).toNat = n := by
  rw [Char.ofNat, dif_pos h]
  rfl

theorem toNat_ofNat (hs : s.IsScalar) (h : s.Has n) : (Char.ofNat n).toNat = n := by
  obtain ⟨r, hr, hn⟩ := h
  obtain ⟨hfirst, hlast, _⟩ := (r.contains_iff n).mp hn
  refine toNat_ofNat_of_isValidChar ?_
  rcases hs r hr with hlow | ⟨hhigh, hmax⟩
  · exact .inl (by omega)
  · exact .inr ⟨by omega, by omega⟩

/-- The table holds the characters of its code points. -/
theorem contains_ofNat (hs : s.IsAscending) (hscalar : s.IsScalar) (h : s.Has n) :
    s.contains (Char.ofNat n) = true := by
  unfold contains
  rw [toNat_ofNat hscalar h]
  exact containsCode_of_has hs h

/-- A table does not hold the character of a code point that it lacks. -/
theorem not_contains_ofNat (hscalar : s.IsScalar) (h : s.Has n) (ht : ¬ t.Has n) :
    t.contains (Char.ofNat n) = false := by
  refine eq_false_of_ne_true fun hcontains => ht ?_
  rw [← toNat_ofNat hscalar h]
  exact has_of_contains hcontains

end CodeSet

end SchemaToGo.Text
