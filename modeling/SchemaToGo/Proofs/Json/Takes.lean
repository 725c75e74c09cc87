import SchemaToGo.Proofs.Json.Grammar
set_option autoImplicit false

/-!
# What readers take

`Takes` says of a reader, from a cursor on, what the bytes that it takes are like, if it succeeds,
and that it does not fail beyond the end of the text.  The text may be any text at all, so this is
the way from what is read to the grammar.  There is a rule for each way in which readers are put
together; a rule for a step hands on what is said of all bytes as what is said of those that are
left to take.
-/

namespace SchemaToGo.Json.Reader

variable {α β : Type}

/-- From the cursor on, the reader takes bytes that satisfy `P`, or it fails within the text. -/
def Takes (r : Reader α) (c : Cursor) (P : List UInt8 → Prop) : Prop :=
  match r c with
  | .ok (_, c') => ∃ taken, c.rest = taken ++ c'.rest ∧ c'.index = c.index + taken.length ∧ P taken
  | .error e => e.index ≤ c.index + c.rest.length

variable {c : Cursor} {P Q : List UInt8 → Prop} {r : Reader α} {next : α → Reader β}

theorem Takes.of_ok (h : Takes r c P) {a : α} {c' : Cursor} (hrun : r c = .ok (a, c')) :
    ∃ taken, c.rest = taken ++ c'.rest ∧ c'.index = c.index + taken.length ∧ P taken := by
  unfold Takes at h
  rw [hrun] at h
  exact h

theorem Takes.of_error (h : Takes r c P) {e : Failure} (hrun : r c = .error e) :
    e.index ≤ c.index + c.rest.length := by
  unfold Takes at h
  rw [hrun] at h
  exact h

theorem Takes.mono (h : Takes r c P) (hPQ : ∀ taken, P taken → Q taken) : Takes r c Q := by
  unfold Takes at h ⊢
  split at h
  · obtain ⟨taken, hrest, hindex, hP⟩ := h
    exact ⟨taken, hrest, hindex, hPQ taken hP⟩
  · exact h

theorem Takes.pure (a : α) (h : P []) : Takes (pure a) c P := ⟨[], rfl, rfl, h⟩

theorem Takes.failHere (f : Fault) : Takes (failHere f : Reader α) c P := Nat.le_add_right _ _

/-- The byte under the cursor is within the text. -/
theorem nextIndex_le (c : Cursor) : c.nextIndex ≤ c.index + c.rest.length := by
  obtain ⟨index, rest⟩ := c
  cases rest with
  | nil => exact Nat.le_refl _
  | cons b rest => exact Nat.add_le_add_left (Nat.le_add_left 1 rest.length) index

theorem Takes.failNext (f : Fault) : Takes (failNext f : Reader α) c P := nextIndex_le c

/-! ## Steps -/

/-- A reader that goes on as another one does further on. -/
theorem Takes.shift {r s : Reader α} (taken : List UInt8) {rest : List UInt8}
    (hrest : c.rest = taken ++ rest) (hrun : r c = s ⟨c.index + taken.length, rest⟩)
    (h : Takes s ⟨c.index + taken.length, rest⟩ fun more => Q (taken ++ more)) : Takes r c Q := by
  unfold Takes at h ⊢
  rw [hrun]
  split at h
  · obtain ⟨more, hmore, hindex, hQ⟩ := h
    refine ⟨taken ++ more, ?_, ?_, hQ⟩
    · rw [hrest, List.append_assoc]
      exact congrArg (taken ++ ·) hmore
    · rw [hindex, List.length_append, Nat.add_assoc]
  · rw [hrest, List.length_append, ← Nat.add_assoc]
    exact h

variable {i : Nat} {bs : List UInt8}

/-- What a step takes and what the next one takes stand one after the other. -/
theorem Takes.bind (h : Takes r ⟨i, bs⟩ P)
    (hnext : ∀ a taken rest, bs = taken ++ rest → P taken →
      Takes (next a) ⟨i + taken.length, rest⟩ fun more => Q (taken ++ more)) :
    Takes (r >>= next) ⟨i, bs⟩ Q := by
  have hbind : (r >>= next) ⟨i, bs⟩ = (r ⟨i, bs⟩ >>= fun x => next x.1 x.2) := rfl
  cases hrun : r ⟨i, bs⟩ with
  | error e =>
    unfold Takes
    rw [hbind, hrun]
    exact h.of_error hrun
  | ok x =>
    obtain ⟨a, c'⟩ := x
    obtain ⟨taken, hrest, hindex, hP⟩ := h.of_ok hrun
    have hc' : c' = ⟨i + taken.length, c'.rest⟩ := by rw [← hindex]
    refine .shift (s := next a) taken hrest ?_ (hnext a taken c'.rest hrest hP)
    rw [hbind, hrun]
    exact congrArg (next a) hc'

/-- What is read is only turned into something else. -/
theorem Takes.map (h : Takes r ⟨i, bs⟩ P) (f : α → β) : Takes (do return f (← r)) ⟨i, bs⟩ P :=
  h.bind fun _ taken _ _ hP => .pure _ ((List.append_nil taken).symm ▸ hP)

theorem Takes.get {next : Cursor → Reader β} (h : Takes (next ⟨i, bs⟩) ⟨i, bs⟩ Q) :
    Takes (get >>= next) ⟨i, bs⟩ Q := h

/-- Reading goes on after bytes that need not be read one by one. -/
theorem Takes.set (taken rest : List UInt8) {next : PUnit → Reader β}
    (h : Takes (next ()) ⟨i + taken.length, rest⟩ fun more => Q (taken ++ more)) :
    Takes (set (⟨i + taken.length, rest⟩ : Cursor) >>= next) ⟨i, taken ++ rest⟩ Q :=
  .shift (s := next ()) taken rfl rfl h

/-! ## Bytes -/

theorem Takes.eat {x : UInt8} {next : Unit → Reader β}
    (h : Takes (next ()) ⟨i + 1, bs⟩ fun more => Q (x :: more)) :
    Takes (eat >>= next) ⟨i, x :: bs⟩ Q :=
  .shift (s := next ()) [x] rfl rfl h

theorem Takes.eat_last {x : UInt8} (h : Q [x]) : Takes Reader.eat ⟨i, x :: bs⟩ Q :=
  ⟨[x], rfl, rfl, h⟩

theorem Takes.takeWhile (p : UInt8 → Bool) {k : List UInt8 → Reader β}
    (h : ∀ taken rest, bs = taken ++ rest → (∀ x ∈ taken, p x = true) →
      Takes (k taken) ⟨i + taken.length, rest⟩ fun more => Q (taken ++ more)) :
    Takes (takeWhile p >>= k) ⟨i, bs⟩ Q := by
  have htake : bs.take (bs.takeWhile p).length = bs.takeWhile p :=
    (List.prefix_iff_eq_take.mp (List.takeWhile_prefix p)).symm
  have hbs : bs = bs.takeWhile p ++ bs.drop (bs.takeWhile p).length := by
    have hsplit := List.take_append_drop (bs.takeWhile p).length bs
    rw [htake] at hsplit
    exact hsplit.symm
  have hall : ∀ x ∈ bs.takeWhile p, p x = true := List.all_eq_true.mp List.all_takeWhile
  exact .shift (s := k (bs.takeWhile p)) _ hbs rfl (h _ _ hbs hall)

section

variable {next : Option UInt8 → Reader β}

theorem Takes.peek (hnone : Takes (next none) ⟨i, []⟩ Q)
    (hsome : ∀ x rest, bs = x :: rest → Takes (next (some x)) ⟨i, x :: rest⟩ Q) :
    Takes (peek? >>= next) ⟨i, bs⟩ Q := by
  cases bs with
  | nil => exact hnone
  | cons x rest => exact hsome x rest rfl

/-- Blanks are passed over up to the next token, or to the end of the text. -/
theorem Takes.token (hnone : ∀ (i : Nat) (blanks : List UInt8), Blanks blanks →
      Takes (next none) ⟨i, []⟩ fun more => Q (blanks ++ more))
    (hsome : ∀ (i : Nat) (blanks : List UInt8) (x : UInt8) (rest : List UInt8), Blanks blanks →
      Takes (next (some x)) ⟨i, x :: rest⟩ fun more => Q (blanks ++ more)) :
    Takes (peekToken? >>= next) ⟨i, bs⟩ Q :=
  Takes.takeWhile Byte.isBlank (k := fun _ => peek? >>= next) fun blanks _ _ hblanks =>
    .peek (hnone _ blanks hblanks) fun x rest _ => hsome _ blanks x rest hblanks

/-- The letters of a name. -/
theorem Takes.nameRest (name : List UInt8) (i : Nat) (bs : List UInt8) :
    Takes (nameRest name) ⟨i, bs⟩ (· = name) := by
  induction name generalizing i bs with
  | nil => exact .pure () rfl
  | cons x name ih =>
    unfold Reader.nameRest
    refine .peek (.failHere _) fun y rest _ => .eat ?_
    by_cases hy : y = x
    · rw [if_pos hy]
      exact (ih _ _).mono fun more hmore => by rw [hy, hmore]
    · rw [if_neg hy]
      exact .failHere _

end

end SchemaToGo.Json.Reader
