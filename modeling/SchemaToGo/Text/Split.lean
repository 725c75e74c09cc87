set_option autoImplicit false

/-!
# Splitting a text

A text falls into stretches at every character that satisfies a test.  There is always one stretch
more than there are such characters; stretches may be empty.  A text may also be cut once, at the
last occurrence of another text.
-/

namespace SchemaToGo.Text

/-- The stretches between the characters that satisfy `p`. -/
def splitAll (p : Char → Bool) : List Char → List (List Char)
  | [] => [[]]
  | c :: rest =>
    if p c then [] :: splitAll p rest
    else
      match splitAll p rest with
      | [] => [[c]]
      | first :: others => (c :: first) :: others

/-- What stands before the last occurrence of a text, if there is one. -/
def beforeLast? (mark : List Char) : List Char → Option (List Char)
  | [] => if mark = [] then some [] else none
  | c :: rest =>
    match beforeLast? mark rest with
    | some before => some (c :: before)
    | none => if mark.isPrefixOf (c :: rest) then some [] else none

/-- The first stretch ends at the first character that satisfies `p`. -/
theorem splitAll_cons_of_pos {p : Char → Bool} {c : Char} (h : p c = true) (rest : List Char) :
    splitAll p (c :: rest) = [] :: splitAll p rest := by
  simp [splitAll, h]

/-- There is one stretch more than there are characters that satisfy `p`. -/
theorem length_splitAll (p : Char → Bool) (t : List Char) :
    (splitAll p t).length = t.countP p + 1 := by
  induction t with
  | nil => rfl
  | cons c rest ih =>
    cases h : p c with
    | true => simp [splitAll, h, ih]
    | false =>
      cases hs : splitAll p rest with
      | nil => simp [hs] at ih
      | cons first others =>
        rw [hs] at ih
        simpa [splitAll, h, hs] using ih

end SchemaToGo.Text
