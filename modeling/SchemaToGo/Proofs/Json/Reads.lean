import SchemaToGo.Proofs.Json.Grammar
set_option autoImplicit false

/-!
# What a reader makes of a text

`Reads` names the bytes that a reader finds, what it gets from them and the bytes that it leaves.
Failures are all alike, and so are places in the text: only what is read counts.  There is a rule
for each way in which readers are put together.
-/

namespace SchemaToGo.Json.Reader

variable {α β : Type}

/-! ## Outcomes -/

/-- From these bytes the reader gets `a` and leaves `rest`; with `none` for `a` it fails. -/
def Reads (r : Reader α) (bs : List UInt8) (a : Option α) (rest : List UInt8) : Prop :=
  ∀ c : Cursor, c.rest = bs →
    match a with
    | some a => ∃ c' : Cursor, r c = .ok (a, c') ∧ c'.rest = rest
    | none => ∃ e, r c = .error e

variable {bs mid rest : List UInt8} {r : Reader α} {next : α → Reader β}

theorem Reads.pure (a : α) (bs : List UInt8) : Reads (pure a) bs (some a) bs :=
  fun c hc => ⟨c, rfl, hc⟩

/-- A reader that fails on every text. -/
theorem Reads.of_error (h : ∀ c, ∃ e, r c = .error e) : Reads r bs none rest := fun c _ => h c

theorem Reads.failHere (f : Fault) : Reads (failHere f : Reader α) bs none rest :=
  .of_error fun _ => ⟨_, rfl⟩

theorem Reads.failNext (f : Fault) : Reads (failNext f : Reader α) bs none rest :=
  .of_error fun _ => ⟨_, rfl⟩

/-- Nothing follows a failure. -/
theorem Reads.bind_none (h : Reads r bs none mid) : Reads (r >>= next) bs none rest := by
  intro c hc
  obtain ⟨e, he⟩ := h c hc
  exact ⟨e, by show (r c >>= fun x => next x.1 x.2) = _; rw [he]; rfl⟩

/-- A step that succeeds is followed by the next one. -/
theorem Reads.bind_some {a : α} {b : Option β} (h : Reads r bs (some a) mid)
    (hnext : Reads (next a) mid b rest) : Reads (r >>= next) bs b rest := by
  intro c hc
  obtain ⟨c', hrun, hc'⟩ := h c hc
  have hbind : (r >>= next) c = next a c' := by
    show (r c >>= fun x => next x.1 x.2) = _
    rw [hrun]
    rfl
  rw [hbind]
  exact hnext c' hc'

/-- A step that may fail, and the next one. -/
theorem Reads.bind {a : Option α} {f : α → Option β} (h : Reads r bs a mid)
    (hnext : ∀ x, a = some x → Reads (next x) mid (f x) rest) :
    Reads (r >>= next) bs (a.bind f) rest := by
  cases a with
  | none => exact h.bind_none
  | some a => exact h.bind_some (hnext a rfl)

/-- What is read is only turned into something else. -/
theorem Reads.map {a : Option α} (h : Reads r bs a rest) (f : α → β) :
    Reads (do return f (← r)) bs (a.map f) rest := by
  rw [Option.map_eq_bind]
  exact h.bind fun x _ => .pure (f x) rest

/-- Where reading stands does not matter to what is read, only the bytes from there on do. -/
theorem Reads.get {next : Cursor → Reader β} {b : Option β}
    (h : ∀ c, c.rest = bs → Reads (next c) bs b rest) : Reads (get >>= next) bs b rest :=
  fun c hc => h c hc c hc

/-- Reading goes on at another place. -/
theorem Reads.set {c : Cursor} {next : Unit → Reader β} {b : Option β}
    (h : Reads (next ()) c.rest b rest) : Reads (set c >>= next) bs b rest :=
  fun _ _ => h c rfl

/-! ## Bytes -/

section

variable {next : Option UInt8 → Reader β} {b : Option β}

theorem Reads.peek (h : Reads (next bs.head?) bs b rest) : Reads (peek? >>= next) bs b rest :=
  Reads.bind_some (fun c hc => ⟨c, by rw [← hc]; rfl, hc⟩) h

theorem Reads.eat {x : UInt8} {next : Unit → Reader β} (h : Reads (next ()) bs b rest) :
    Reads (eat >>= next) (x :: bs) b rest :=
  Reads.bind_some (fun c hc => ⟨c.drop 1, rfl, by unfold Cursor.drop; rw [hc]; rfl⟩) h

theorem Reads.eat_last (x : UInt8) (bs : List UInt8) :
    Reads Reader.eat (x :: bs) (some ()) bs :=
  fun c hc => ⟨c.drop 1, rfl, by unfold Cursor.drop; rw [hc]; rfl⟩

/-- Bytes of a kind are read up to the first one of another kind. -/
theorem Reads.takeWhile {p : UInt8 → Bool} {taken : List UInt8} (htaken : ∀ x ∈ taken, p x = true)
    (hrest : ∀ x ∈ rest.head?, p x = false) :
    Reads (takeWhile p) (taken ++ rest) (some taken) rest := by
  intro c hc
  have htake : c.rest.takeWhile p = taken := by
    rw [hc, List.takeWhile_append_of_pos htaken]
    cases rest with
    | nil => rw [List.takeWhile_nil, List.append_nil]
    | cons x rest =>
      rw [List.takeWhile_cons_of_neg (by rw [hrest x rfl]; exact Bool.false_ne_true),
        List.append_nil]
  refine ⟨c.drop taken.length, ?_, ?_⟩
  · unfold Reader.takeWhile
    rw [htake]
  · show c.rest.drop taken.length = rest
    rw [hc, List.drop_left]

/-- Blanks are passed over up to the next token. -/
theorem Reads.peekToken {blanks : List UInt8} {x : UInt8} (h : Blanks blanks)
    (hx : Byte.isBlank x = false) :
    Reads peekToken? (blanks ++ x :: bs) (some (some x)) (x :: bs) := by
  have hblanks : Reads Reader.blanks (blanks ++ x :: bs) (some ()) (x :: bs) := by
    intro c hc
    have hstop : ∀ y ∈ (x :: bs).head?, Byte.isBlank y = false := fun y hy =>
      Option.some.inj hy ▸ hx
    obtain ⟨c', hrun, hc'⟩ := Reads.takeWhile h hstop c hc
    cases hrun
    exact ⟨c.skipBlanks, rfl, hc'⟩
  refine hblanks.bind_some fun c hc => ⟨c, ?_, hc⟩
  have hhead : c.rest.head? = some x := by rw [hc]; rfl
  exact hhead ▸ rfl

theorem Reads.token {blanks : List UInt8} {x : UInt8} (h : Blanks blanks)
    (hx : Byte.isBlank x = false) (hnext : Reads (next (some x)) (x :: bs) b rest) :
    Reads (peekToken? >>= next) (blanks ++ x :: bs) b rest :=
  (Reads.peekToken h hx).bind_some hnext

/-- The letters of a name. -/
theorem Reads.nameRest (name rest : List UInt8) :
    Reads (nameRest name) (name ++ rest) (some ()) rest := by
  induction name with
  | nil => exact .pure () rest
  | cons x name ih =>
    unfold Reader.nameRest
    refine Reads.peek (Reads.eat ?_)
    rw [if_pos rfl]
    exact ih

end

end SchemaToGo.Json.Reader
