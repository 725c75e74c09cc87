import SchemaToGo.Proofs.Naming.Camel
import SchemaToGo.Proofs.Workshop.Step
set_option autoImplicit false

/-!
# Looking for a free name

A free name is looked for by trying one name after the other: the plain one, and then those with a
number, from one on, with no bound on how many there are.  A name that is taken is left alone, and
the first one that is not may be taken right away.  This always comes to an end, and to no other
than `freeName`, which knows beforehand how many names it has to try: `freeName_smallest`.

Normative source: SPEC_FULL.md section 10: names that collide get a numeric suffix.
-/

namespace SchemaToGo.Naming

/-! ## Free names -/

/-- Only one name is free and has the smallest number. -/
theorem isFreed_iff {taken : List String} {base name : String} :
    IsFreed taken base name ↔ name = freeName taken base := by
  constructor
  · intro h
    rcases h with ⟨hbase, rfl⟩ | ⟨hbase, m, hm, rfl, hfree, hbefore⟩
    · rcases isFreed_freeName taken name with ⟨-, hname⟩ | ⟨htaken, -⟩
      · exact hname.symm
      · exact absurd htaken hbase
    · rcases isFreed_freeName taken base with ⟨hnot, -⟩ | ⟨-, n, hn, hname, hfree', hbefore'⟩
      · exact absurd hbase hnot
      · rw [hname]
        rcases Nat.lt_trichotomy m n with hlt | rfl | hlt
        · exact absurd (hbefore' m hm hlt) hfree
        · rfl
        · exact absurd (hbefore n hn hlt) hfree'
  · rintro rfl
    exact isFreed_freeName taken base

/-- No number is needed that is larger than the number of names taken. -/
theorem IsFreed.number_le_length {taken : List String} {base : String} {n : Nat}
    (h : IsFreed taken base (base ++ toString n)) : n ≤ taken.length := by
  rcases h with ⟨-, hname⟩ | ⟨hbase, m, -, hname, -, hbefore⟩
  · exact absurd hname (append_number_ne base n)
  · obtain rfl := append_number_inj hname
    by_contra hlength
    exact not_all_numbers_taken hbase fun i hi hle => hbefore i hi (by omega)

/-! ## Trying names -/

/-- A way to try a name: it says whether the name is free, and which names are taken afterwards. -/
abbrev Probe := String → List String → Bool × List String

/-- Take the name if it is free. -/
def taking : Probe := fun name taken =>
  if name ∈ taken then (false, taken) else (true, name :: taken)

/-- Only look whether the name is free. -/
def looking : Probe := fun name taken => (decide (name ∉ taken), taken)

/-- A name that is taken stays so, and nothing else happens to it; the others are free. -/
structure Probe.Honest (probe : Probe) : Prop where
  of_mem : ∀ {name taken}, name ∈ taken → probe name taken = (false, taken)
  of_not_mem : ∀ {name taken}, name ∉ taken → (probe name taken).1 = true

theorem taking_honest : Probe.Honest taking where
  of_mem h := if_pos h
  of_not_mem h := by rw [taking, if_neg h]

theorem looking_honest : Probe.Honest looking where
  of_mem h := by rw [looking, decide_eq_false (not_not_intro h)]
  of_not_mem h := decide_eq_true h

/-- With one number after the other, from `n` on, the first free name is `name`, and trying all these
names makes `taken'` of the names `taken`. -/
inductive Counts (probe : Probe) (base : String) :
    Nat → List String → String → List String → Prop
  | free {n : Nat} {taken taken' : List String}
      (h : probe (base ++ toString n) taken = (true, taken')) :
      Counts probe base n taken (base ++ toString n) taken'
  | next {n : Nat} {taken mid taken' : List String} {name : String}
      (h : probe (base ++ toString n) taken = (false, mid))
      (hnext : Counts probe base (n + 1) mid name taken') : Counts probe base n taken name taken'

/-- Trying `base`, and then `base` with the numbers from one on, comes to `name`. -/
inductive Finds (probe : Probe) (base : String) : List String → String → List String → Prop
  | plain {taken taken' : List String} (h : probe base taken = (true, taken')) :
      Finds probe base taken base taken'
  | numbered {taken mid taken' : List String} {name : String} (h : probe base taken = (false, mid))
      (hcounts : Counts probe base 1 mid name taken') : Finds probe base taken name taken'

section

variable {probe : Probe} (hprobe : probe.Honest) {base name : String} {taken taken' : List String}
include hprobe

theorem Probe.Honest.not_mem (h : probe name taken = (true, taken')) : name ∉ taken := by
  intro hmem
  rw [hprobe.of_mem hmem] at h
  cases h

theorem Probe.Honest.mem_and_eq (h : probe name taken = (false, taken')) :
    name ∈ taken ∧ taken' = taken := by
  by_cases hmem : name ∈ taken
  · rw [hprobe.of_mem hmem] at h
    exact ⟨hmem, (congrArg Prod.snd h).symm⟩
  · have hfree := hprobe.of_not_mem hmem
    rw [h] at hfree
    cases hfree

/-- Counting comes to the first number that is free.  The names that are tried before it are taken,
so trying them changes nothing. -/
theorem counts_iff {n : Nat} : Counts probe base n taken name taken' ↔
    ∃ m ≥ n, name = base ++ toString m ∧ (∀ i, n ≤ i → i < m → base ++ toString i ∈ taken) ∧
      probe name taken = (true, taken') := by
  constructor
  · intro h
    induction h with
    | @free n _ _ h => exact ⟨n, Nat.le_refl n, rfl, fun i hi hlt => by omega, h⟩
    | @next n _ _ _ _ h _ ih =>
      obtain ⟨m, hm, hname, hbefore, hlast⟩ := ih
      obtain ⟨hmem, rfl⟩ := hprobe.mem_and_eq h
      refine ⟨m, Nat.le_of_succ_le hm, hname, fun i hi hlt => ?_, hlast⟩
      rcases Nat.eq_or_lt_of_le hi with rfl | hi
      · exact hmem
      · exact hbefore i hi hlt
  · rintro ⟨m, hm, rfl, hbefore, hlast⟩
    -- from the free number down to the first one
    obtain ⟨k, rfl⟩ := Nat.exists_eq_add_of_le hm
    clear hm
    induction k generalizing n with
    | zero => exact .free hlast
    | succ k ih =>
      refine .next (hprobe.of_mem (hbefore n (Nat.le_refl n) (by omega))) ?_
      have hsum : n + (k + 1) = n + 1 + k := by omega
      rw [hsum] at hlast hbefore ⊢
      exact ih (fun i hi hlt => hbefore i (by omega) hlt) hlast

/-- The search always ends, and with the free name. -/
theorem finds_iff : Finds probe base taken name taken' ↔
    name = freeName taken base ∧ probe name taken = (true, taken') := by
  rw [← isFreed_iff]
  constructor
  · intro h
    cases h with
    | plain h => exact ⟨.inl ⟨hprobe.not_mem h, rfl⟩, h⟩
    | numbered h hcounts =>
      obtain ⟨hbase, rfl⟩ := hprobe.mem_and_eq h
      obtain ⟨n, hn, rfl, hbefore, hlast⟩ := (counts_iff hprobe).mp hcounts
      exact ⟨.inr ⟨hbase, n, hn, rfl, hprobe.not_mem hlast, hbefore⟩, hlast⟩
  · rintro ⟨⟨-, rfl⟩ | ⟨hbase, n, hn, rfl, -, hbefore⟩, hlast⟩
    · exact .plain hlast
    · exact .numbered (hprobe.of_mem hbase)
        ((counts_iff hprobe).mpr ⟨n, hn, rfl, hbefore, hlast⟩)

end

/-- Looking for a free name and taking it. -/
theorem finds_taking_iff {base name : String} {taken taken' : List String} :
    Finds taking base taken name taken' ↔
      name = freeName taken base ∧ taken' = freeName taken base :: taken := by
  rw [finds_iff taking_honest]
  refine and_congr_right fun hname => ?_
  rw [hname, taking, if_neg (freeName_not_mem taken base), Prod.mk.injEq]
  exact ⟨fun h => h.2.symm, fun h => ⟨rfl, h.symm⟩⟩

/-- Looking for a free name and leaving it. -/
theorem finds_looking_iff {base name : String} {taken taken' : List String} :
    Finds looking base taken name taken' ↔ name = freeName taken base ∧ taken' = taken := by
  rw [finds_iff looking_honest]
  refine and_congr_right fun hname => ?_
  rw [hname, looking, decide_eq_true (freeName_not_mem taken base), Prod.mk.injEq]
  exact ⟨fun h => h.2.symm, fun h => ⟨rfl, h.symm⟩⟩

/-- A type gets the plain name if no other type has it, and else the name with the smallest number
from one on that no other type has, and then exactly this name is taken in addition.  A field gets
its name in the same way among the fields of its struct, which stay as they are.  Trying names
without a bound comes to the same name, and the number in it is at most that of the names taken. -/
theorem freeName_smallest (base : String) :
    (∀ w : Workshop, ∃ name,
      Work.outcome (Work.reserve base) w =
        (.ok name, { w with reserved := name :: w.reserved }) ∧
      name ∉ w.reserved ∧ IsFreed w.reserved base name ∧
      (∀ n, name = base ++ toString n → n ≤ w.reserved.length) ∧
      ∀ name' taken', Finds taking base w.reserved name' taken' ↔
        name' = name ∧ taken' = name :: w.reserved) ∧
    ∀ s : Struct, ∃ name,
      freeName s.fields.keys base = name ∧
      name ∉ s.fields.keys ∧ IsFreed s.fields.keys base name ∧
      (∀ n, name = base ++ toString n → n ≤ s.fields.keys.length) ∧
      ∀ name' taken', Finds looking base s.fields.keys name' taken' ↔
        name' = name ∧ taken' = s.fields.keys := by
  have hnumber : ∀ (taken : List String) n, freeName taken base = base ++ toString n →
      n ≤ taken.length := by
    intro taken n hname
    exact IsFreed.number_le_length (isFreed_iff.mpr hname.symm)
  constructor
  · intro w
    exact ⟨freeName w.reserved base, Work.outcome_reserve base w, freeName_not_mem _ _,
      isFreed_freeName _ _, hnumber _, fun _ _ => finds_taking_iff⟩
  · intro s
    exact ⟨freeName s.fields.keys base, rfl, freeName_not_mem _ _, isFreed_freeName _ _,
      hnumber _, fun _ _ => finds_looking_iff⟩

/-- A base that ends in a digit itself. -/
example : freeName ["Foo", "Foo1", "Foo11", "Foo12"] "Foo1" = "Foo13" ∧
    freeName ["Foo", "Foo1", "Foo11", "Foo12"] "Foo" = "Foo2" := by decide

end SchemaToGo.Naming
