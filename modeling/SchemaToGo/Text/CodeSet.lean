set_option autoImplicit false

/-!
# Sets of code points

A property of characters is given by a table: a list of runs in ascending order.  A run steps
through its code points by one, or by two where upper and lower case alternate.  The lookup stops
at the first run that starts beyond the code point, so ordinary text is decided by the first few
rows of a table.
-/

namespace SchemaToGo.Text

/-- The code points `first, first + stride, …, last`. -/
structure Run where
  first : Nat
  last : Nat
  stride : Nat
  deriving Repr, DecidableEq

namespace Run

/-- The code point is one of the run. -/
def contains (r : Run) (n : Nat) : Bool :=
  r.first ≤ n && n ≤ r.last && (n - r.first) % r.stride == 0

theorem contains_iff (r : Run) (n : Nat) :
    r.contains n = true ↔ r.first ≤ n ∧ n ≤ r.last ∧ (n - r.first) % r.stride = 0 := by
  simp [contains, and_assoc]

end Run

/-- A set of code points as its runs, in ascending order of their first code points. -/
abbrev CodeSet := List Run

namespace CodeSet

/-- The table holds the code point. -/
def containsCode : CodeSet → Nat → Bool
  | [], _ => false
  | r :: rest, n => if n < r.first then false else r.contains n || containsCode rest n

/-- The table holds the character. -/
def contains (s : CodeSet) (c : Char) : Bool := containsCode s c.toNat

/-- A code point that a table holds lies in one of its runs. -/
theorem exists_run_of_containsCode {s : CodeSet} {n : Nat} (h : containsCode s n = true) :
    ∃ r ∈ s, r.contains n = true := by
  induction s with
  | nil => simp [containsCode] at h
  | cons r rest ih =>
    simp only [containsCode] at h
    split at h
    · simp at h
    · rcases (Bool.or_eq_true _ _).mp h with h | h
      · exact ⟨r, List.mem_cons_self, h⟩
      · obtain ⟨r', hr', hn⟩ := ih h
        exact ⟨r', List.mem_cons_of_mem _ hr', hn⟩

end CodeSet

end SchemaToGo.Text
