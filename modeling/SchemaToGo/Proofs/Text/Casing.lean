import SchemaToGo.Text.Casing
import SchemaToGo.Proofs.Text.CodeSet
set_option autoImplicit false

/-!
# Case mappings

What a case mapping makes of a character is read off the tables.  Characters in upper case are their
own upper-case forms, and an upper-case form that is not the character itself starts in upper case,
with one exception: the form of `ŉ` starts with an apostrophe.
-/

namespace SchemaToGo.Text

/-! ## Shifts -/

namespace Shift

theorem exists_of_shifted {shifts : List Shift} {n m : Nat}
    (h : Shift.apply? shifts n = some m) :
    ∃ s ∈ shifts, s.run.contains n = true ∧ m = Int.toNat (n + s.distance) := by
  induction shifts with
  | nil => cases h
  | cons s rest ih =>
    unfold Shift.apply? at h
    split at h
    · next hn => exact ⟨s, List.mem_cons_self, hn, (Option.some.inj h).symm⟩
    · obtain ⟨t, ht, hn⟩ := ih h
      exact ⟨t, List.mem_cons_of_mem _ ht, hn⟩

/-- The numeral of what the shift makes of its characters that are no ones of a number.  What would
come below zero comes to zero. -/
def image (skip : Nat) (s : Shift) : Nat :=
  moved (without s.run.mask skip) s.distance ||| if 0 ≤ s.run.first + s.distance then 0 else 1

theorem testBit_image {skip n : Nat} {s : Shift} (hn : s.run.contains n = true)
    (hskip : skip.testBit n = false) :
    (s.image skip).testBit (Int.toNat (n + s.distance)) = true := by
  unfold image
  rw [Nat.testBit_or, Bool.or_eq_true]
  rcases Int.lt_or_le (n + s.distance) 0 with hbelow | hland
  · obtain ⟨hfirst, _, _⟩ := (s.run.contains_iff n).mp hn
    rw [if_neg (by omega), Int.toNat_of_nonpos (Int.le_of_lt hbelow)]
    exact .inr rfl
  · have hkept := testBit_without ((s.run.testBit_mask n).mpr hn) hskip
    exact .inl (testBit_moved hkept hland)

/-- The numeral of what shifts make of the characters that are no ones of a number. -/
def images (skip : Nat) (shifts : List Shift) : Nat :=
  shifts.foldr (fun s m => s.image skip ||| m) 0

theorem testBit_images {skip n : Nat} {shifts : List Shift} {s : Shift} (hs : s ∈ shifts)
    (hn : s.run.contains n = true) (hskip : skip.testBit n = false) :
    (images skip shifts).testBit (Int.toNat (n + s.distance)) = true := by
  induction shifts with
  | nil => cases hs
  | cons t rest ih =>
    have hcons : images skip (t :: rest) = t.image skip ||| images skip rest := rfl
    rw [hcons, Nat.testBit_or, Bool.or_eq_true]
    rcases List.mem_cons.mp hs with rfl | hs
    · exact .inl (testBit_image hn hskip)
    · exact .inr (ih hs)

end Shift

/-! ## Mappings -/

section

variable {expansions : List (Nat × List Nat)} {shifts : List Shift} {c : Char}

/-- A mapped character is expanded, shifted or left as it is. -/
theorem mapCase_cases (expansions : List (Nat × List Nat)) (shifts : List Shift) (c : Char) :
    (∃ e ∈ expansions, e.1 = c.toNat ∧ mapCase expansions shifts c = e.2.map Char.ofNat) ∨
    (∃ s ∈ shifts, s.run.contains c.toNat = true ∧
      mapCase expansions shifts c = [Char.ofNat (Int.toNat (c.toNat + s.distance))]) ∨
    mapCase expansions shifts c = [c] := by
  unfold mapCase
  split
  · next codes hlookup =>
    obtain ⟨before, after, rfl, _⟩ := List.lookup_eq_some_iff.mp hlookup
    exact .inl ⟨(c.toNat, codes), by simp, rfl, rfl⟩
  · split
    · next code hshifted =>
      obtain ⟨s, hs, hn, rfl⟩ := Shift.exists_of_shifted hshifted
      exact .inr (.inl ⟨s, hs, hn, rfl⟩)
    · exact .inr (.inr rfl)

/-- The code points of the characters that a mapping changes. -/
def sources (expansions : List (Nat × List Nat)) (shifts : List Shift) : CodeSet :=
  expansions.map (fun e => .single e.1) ++ shifts.map Shift.run

theorem mapCase_eq_self (h : ¬ (sources expansions shifts).Has c.toNat) :
    mapCase expansions shifts c = [c] := by
  rcases mapCase_cases expansions shifts c with ⟨e, he, hcode, _⟩ | ⟨s, hs, hn, _⟩ | hself
  · refine absurd ⟨.single e.1, List.mem_append_left _ (List.mem_map_of_mem he), ?_⟩ h
    rw [← hcode]
    exact Run.single_contains e.1
  · exact absurd ⟨s.run, List.mem_append_right _ (List.mem_map_of_mem hs), hn⟩ h
  · exact hself

/-- The code points that expansions are made of. -/
def expanded (expansions : List (Nat × List Nat)) : CodeSet :=
  expansions.flatMap fun e => e.2.map Run.single

/-- The numeral of the characters that a mapping makes. -/
def images (expansions : List (Nat × List Nat)) (shifts : List Shift) : Nat :=
  (expanded expansions).mask ||| Shift.images 0 shifts

/-- A mapped character is made by the mapping, unless it is the character itself. -/
theorem testBit_images_of_mem_mapCase {d : Char} (h : d ∈ mapCase expansions shifts c) :
    (∃ n, (images expansions shifts).testBit n = true ∧ d = Char.ofNat n) ∨ d = c := by
  unfold images
  simp only [Nat.testBit_or, Bool.or_eq_true]
  rcases mapCase_cases expansions shifts c with ⟨e, he, _, heq⟩ | ⟨s, hs, hn, heq⟩ | heq
  · rw [heq] at h
    obtain ⟨n, hn, rfl⟩ := List.mem_map.mp h
    refine .inl ⟨n, .inl ((CodeSet.testBit_mask _ n).mpr ?_), rfl⟩
    exact ⟨.single n, List.mem_flatMap.mpr ⟨e, he, List.mem_map_of_mem hn⟩, Run.single_contains n⟩
  · rw [heq] at h
    have himage := Shift.testBit_images hs hn (Nat.zero_testBit _)
    exact .inl ⟨_, .inr himage, List.mem_singleton.mp h⟩
  · rw [heq] at h
    exact .inr (List.mem_singleton.mp h)

end

/-! ## Upper case -/

/-- The code points of the characters in upper case. -/
def upperCodes : CodeSet := CodeSet.upperLetters ++ CodeSet.otherUppercase

theorem has_upperCodes {c : Char} (h : isUppercase c = true) : upperCodes.Has c.toNat :=
  CodeSet.has_append.mpr (((Bool.or_eq_true _ _).mp h).imp CodeSet.has_of_contains
    CodeSet.has_of_contains)

/-- The tables of letters with case are well-formed. -/
theorem letters_wellFormed :
    (CodeSet.upperLetters.IsAscending ∧ CodeSet.upperLetters.IsScalar) ∧
      CodeSet.lowerLetters.IsAscending ∧ CodeSet.lowerLetters.IsScalar := by
  decide +kernel

theorem isUppercase_ofNat {n : Nat} (h : upperCodes.Has n) : isUppercase (Char.ofNat n) = true := by
  obtain ⟨hascending, hscalar⟩ := letters_wellFormed.1
  refine (Bool.or_eq_true _ _).mpr ?_
  rcases CodeSet.has_append.mp h with hletter | hother
  · exact .inl (CodeSet.contains_ofNat hascending hscalar hletter)
  · exact .inr (CodeSet.contains_ofNat (by decide) (by decide) hother)

/-- The first characters of the upper-case forms that are several characters, apart from that of
`ŉ`. -/
def upperHeads : CodeSet :=
  upperExpansions.filterMap fun e => if e.1 = 0x149 then none else e.2.head?.map Run.single

/-- Upper case changes no character in upper case and shifts to upper case only.  Its forms of
several characters start with upper-case letters that are no new ones. -/
theorem upper_masks :
    (upperCodes.mask &&& (sources upperExpansions upperShifts).mask = 0 ∧
      Shift.images 0 upperShifts ||| upperCodes.mask = upperCodes.mask) ∧
    (∀ e ∈ upperExpansions, e.2 ≠ []) ∧
      upperHeads.mask ||| CodeSet.upperLetters.mask = CodeSet.upperLetters.mask ∧
      upperHeads.mask &&& CodeSet.newInUnicode17.mask = 0 := by
  decide +kernel

/-- Characters in upper case are their own upper-case forms. -/
theorem toUpper_eq_self {c : Char} (h : isUppercase c = true) : toUpper c = [c] :=
  mapCase_eq_self ((has_upperCodes h).not_of_and upper_masks.1.1)

/-- An upper-case form other than the character itself is a character in upper case, or starts with
an upper-case letter that is no new one. -/
theorem toUpper_cases (c : Char) :
    toUpper c = [c] ∨ c = 'ŉ' ∨ (∃ d, isUppercase d = true ∧ toUpper c = [d]) ∨
      ∃ d rest, CodeSet.upperLetters.contains d = true ∧
        CodeSet.newInUnicode17.contains d = false ∧ toUpper c = d :: rest := by
  obtain ⟨⟨_, hshifted⟩, hnonempty, hheads, hold⟩ := upper_masks
  rcases mapCase_cases upperExpansions upperShifts c with ⟨e, he, hcode, heq⟩ | ⟨s, hs, hn, heq⟩ |
    heq
  · by_cases h149 : e.1 = 0x149
    · refine .inr (.inl ?_)
      rw [← Char.ofNat_toNat c, ← hcode, h149]
    · obtain ⟨n, codes, hcodes⟩ := List.exists_cons_of_ne_nil (hnonempty e he)
      have hn : upperHeads.Has n := by
        refine ⟨.single n, List.mem_filterMap.mpr ⟨e, he, ?_⟩, Run.single_contains n⟩
        rw [if_neg h149, hcodes]
        rfl
      have hletter := hn.of_or hheads
      obtain ⟨hascending, hscalar⟩ := letters_wellFormed.1
      refine .inr (.inr (.inr ⟨Char.ofNat n, codes.map Char.ofNat, ?_, ?_, ?_⟩))
      · exact CodeSet.contains_ofNat hascending hscalar hletter
      · exact CodeSet.not_contains_ofNat hscalar hletter (hn.not_of_and hold)
      · exact heq.trans (by rw [hcodes]; rfl)
  · have himage := Shift.testBit_images hs hn (Nat.zero_testBit _)
    have hupper := (CodeSet.testBit_mask _ _).mp (testBit_of_or himage hshifted)
    exact .inr (.inr (.inl ⟨_, isUppercase_ofNat hupper, heq⟩))
  · exact .inl heq

/-! ## Characters without case -/

/-- The underscore and the decimal digits, which no case mapping changes or makes. -/
def isCaseless (c : Char) : Bool := c == '_' || c.isDigit

/-- The code points of the characters without case. -/
def caselessCodes : CodeSet := [⟨0x30, 0x39, 1⟩, .single 0x5F]

theorem isCaseless_iff {c : Char} : isCaseless c = true ↔ caselessCodes.Has c.toNat := by
  have hunderscore : c = '_' ↔ c.toNat = 0x5F := by
    refine ⟨fun h => h ▸ rfl, fun h => ?_⟩
    rw [← Char.ofNat_toNat c, h]
  have hdigit : c.isDigit = true ↔ 0x30 ≤ c.toNat ∧ c.toNat ≤ 0x39 := by
    simp only [Char.isDigit, ge_iff_le, Bool.and_eq_true, decide_eq_true_eq,
      UInt32.le_iff_toNat_le]
    exact Iff.rfl
  unfold isCaseless caselessCodes CodeSet.Has Run.single
  simp only [Bool.or_eq_true, beq_iff_eq, hunderscore, hdigit, List.mem_cons, List.not_mem_nil,
    or_false, exists_eq_or_imp, exists_eq_left, Run.contains_iff, Nat.mod_one, and_true]
  omega

section

variable {expansions : List (Nat × List Nat)} {shifts : List Shift}

/-- A mapping that neither changes nor makes characters without case keeps them as they stand. -/
theorem filter_isCaseless_mapCase
    (hmasks : caselessCodes.mask &&& (sources expansions shifts).mask = 0 ∧
      images expansions shifts &&& caselessCodes.mask = 0) (c : Char) :
    (mapCase expansions shifts c).filter isCaseless = [c].filter isCaseless := by
  obtain ⟨hsources, himages⟩ := hmasks
  cases hc : isCaseless c with
  | true => rw [mapCase_eq_self ((isCaseless_iff.mp hc).not_of_and hsources)]
  | false =>
    rw [List.filter_cons_of_neg (by simp [hc]), List.filter_nil, List.filter_eq_nil_iff]
    intro d hd hcaseless
    rcases testBit_images_of_mem_mapCase hd with ⟨n, hn, rfl⟩ | rfl
    · by_cases hvalid : n.isValidChar
      · have hhas := isCaseless_iff.mp hcaseless
        rw [CodeSet.toNat_ofNat_of_isValidChar hvalid, ← CodeSet.testBit_mask,
          testBit_of_and hn himages] at hhas
        cases hhas
      · rw [Char.ofNat, dif_neg hvalid] at hcaseless
        exact absurd hcaseless (by decide)
    · rw [hc] at hcaseless
      cases hcaseless

end

/-- Neither mapping changes or makes characters without case. -/
theorem caseless_masks :
    (caselessCodes.mask &&& (sources upperExpansions upperShifts).mask = 0 ∧
      images upperExpansions upperShifts &&& caselessCodes.mask = 0) ∧
    caselessCodes.mask &&& (sources lowerExpansions lowerShifts).mask = 0 ∧
      images lowerExpansions lowerShifts &&& caselessCodes.mask = 0 := by
  decide +kernel

theorem filter_isCaseless_toUpper (c : Char) :
    (toUpper c).filter isCaseless = [c].filter isCaseless :=
  filter_isCaseless_mapCase caseless_masks.1 c

theorem filter_isCaseless_toLower (c : Char) :
    (toLower c).filter isCaseless = [c].filter isCaseless :=
  filter_isCaseless_mapCase caseless_masks.2 c

end SchemaToGo.Text
