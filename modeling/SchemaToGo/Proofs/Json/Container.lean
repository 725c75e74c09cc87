import SchemaToGo.Proofs.Json.StringLiteral
import SchemaToGo.Proofs.Json.NumberLiteral
import SchemaToGo.Json.Skip
set_option autoImplicit false

/-!
# How arrays and objects are read

If the texts of a tree are read as what a function makes of the tree, the text of an array is read
as what it makes of the elements, one by one, and the text of an object as what comes of taking
its members in turn.  The length of the text bounds the repetitions that are needed.
-/

namespace SchemaToGo.Json

open Reader

/-- A number does not start like anything else. -/
theorem ne_of_startsNumber {x y : UInt8} (h : x = Byte.minus ∨ Byte.isDigit x = true)
    (hminus : y ≠ Byte.minus) (hdigit : Byte.isDigit y = false) : x ≠ y := by
  rintro rfl
  rcases h with h | h
  · exact hminus h
  · exact Bool.false_ne_true (hdigit.symm.trans h)

theorem not_isBlank_of_startsNumber {x : UInt8} (h : x = Byte.minus ∨ Byte.isDigit x = true) :
    Byte.isBlank x = false := by
  refine eq_false_of_ne_true fun hx => ?_
  simp only [Byte.isBlank, Bool.or_eq_true, beq_iff_eq] at hx
  rcases hx with ((hx | hx) | hx) | hx <;>
    exact ne_of_startsNumber h (by decide) (by decide) hx

/-- A value starts with a byte that is neither blank nor ends a list. -/
theorem ValueText.exists_cons {t : Tree} {bs : List UInt8} (h : ValueText t bs) :
    ∃ x tail, bs = x :: tail ∧ Byte.isBlank x = false ∧ x ≠ Byte.closeBracket := by
  cases h with
  | nullName => exact ⟨_, _, rfl, by decide, by decide⟩
  | trueName => exact ⟨_, _, rfl, by decide, by decide⟩
  | falseName => exact ⟨_, _, rfl, by decide, by decide⟩
  | number h =>
    obtain ⟨x, tail, rfl, hx⟩ := exists_cons_of_numberLiteral h
    exact ⟨x, tail, rfl, not_isBlank_of_startsNumber hx,
      ne_of_startsNumber hx (by decide) (by decide)⟩
  | string h =>
    cases h
    exact ⟨_, _, rfl, by decide, by decide⟩
  | array _ => exact ⟨_, _, rfl, by decide, by decide⟩
  | object _ => exact ⟨_, _, rfl, by decide, by decide⟩

namespace Reader

variable {α : Type}

/-- Every text of a tree, if it is not longer than `limit`, is read as what `f` makes of the
tree. -/
def ReadsAs (item : Reader α) (f : Tree → Option α) (limit : Nat) : Prop :=
  ∀ ⦃t : Tree⦄ ⦃bs : List UInt8⦄, ValueText t bs → bs.length ≤ limit →
    ∀ ⦃blanks rest : List UInt8⦄, Blanks blanks → EndsNumber rest →
      Reads item (blanks ++ (bs ++ rest)) (f t) rest

/-- A number is the next token where it starts. -/
theorem Reads.numberToken {bs blanks rest rest' : List UInt8} (h : NumberLiteral bs)
    (hblanks : Blanks blanks) {next : Option UInt8 → Reader α} {a : Option α}
    (hnext : ∀ x, (x = Byte.minus ∨ Byte.isDigit x = true) →
      Reads (next (some x)) (bs ++ rest) a rest') :
    Reads (peekToken? >>= next) (blanks ++ (bs ++ rest)) a rest' := by
  obtain ⟨x, tail, rfl, hx⟩ := exists_cons_of_numberLiteral h
  exact Reads.token hblanks (not_isBlank_of_startsNumber hx) (hnext x hx)

theorem EndsNumber.cons {b : UInt8} (hb : continuesNumber b = false) (bs : List UInt8) :
    EndsNumber (b :: bs) := fun _ h => Option.some.inj h ▸ hb

/-- Blanks do not go on with a number. -/
theorem EndsNumber.blanks {blanks bs : List UInt8} (h : Blanks blanks) (hbs : EndsNumber bs) :
    EndsNumber (blanks ++ bs) := by
  cases blanks with
  | nil => exact hbs
  | cons b blanks =>
    have hb := h b List.mem_cons_self
    refine .cons ?_ _
    simp only [Byte.isBlank, Bool.or_eq_true, beq_iff_eq] at hb
    rcases hb with ((rfl | rfl) | rfl) | rfl <;> decide

/-- What follows an item does not go on with a number. -/
theorem endsNumber_of_listTail {α : Type} {Item : α → List UInt8 → Prop} {closing : UInt8}
    (hclosing : continuesNumber closing = false) {as : List α} {bs : List UInt8}
    (h : ListTail Item closing as bs) (rest : List UInt8) : EndsNumber (bs ++ rest) := by
  cases h with
  | nil h =>
    rw [List.append_assoc]
    exact .blanks h (.cons hclosing _)
  | cons h _ _ _ =>
    rw [List.append_assoc]
    exact .blanks h (.cons (by decide) _)

/-! ## Arrays -/

section

variable {item : Reader α} {f : Tree → Option α} {limit : Nat}

theorem moreElements_reads (hitem : ReadsAs item f limit) {ts : List Tree} {bs : List UInt8}
    (h : ListTail ValueText Byte.closeBracket ts bs) (hlimit : bs.length ≤ limit) {n : Nat}
    (hn : bs.length ≤ n) (rest : List UInt8) :
    Reads (moreElements item n) (bs ++ rest) (ts.mapM f) rest := by
  induction h generalizing n with
  | nil hblanks =>
    simp only [List.length_append, List.length_singleton] at hn
    obtain ⟨n, rfl⟩ := Nat.exists_eq_add_one_of_ne_zero (Nat.ne_zero_of_lt hn)
    unfold moreElements
    rw [List.append_assoc]
    exact Reads.token hblanks (by decide) (Reads.eat (.pure [] rest))
  | @cons blanks blanks' bs tail t ts hblanks hblanks' htext htail ih =>
    simp only [List.length_append, List.length_cons] at hn hlimit
    obtain ⟨n, rfl⟩ := Nat.exists_eq_add_one_of_ne_zero (Nat.ne_zero_of_lt hn)
    obtain ⟨x, more, rfl, hx, hclose⟩ := htext.exists_cons
    unfold moreElements
    simp only [List.append_assoc, List.cons_append]
    refine Reads.token hblanks (by decide) (Reads.eat ?_)
    refine Reads.token hblanks' hx ?_
    dsimp only
    rw [if_neg hclose, List.mapM_cons]
    have hfirst := hitem htext (by omega) .nil (endsNumber_of_listTail (by decide) htail rest)
    refine Reads.bind hfirst fun first _ => ?_
    exact Reads.bind (@ih (by omega) n (by omega)) fun more _ => .pure (first :: more) rest

/-- The elements of an array are read one by one. -/
theorem elements_reads (hitem : ReadsAs item f limit) {ts : List Tree} {bs : List UInt8}
    (h : ListBody ValueText Byte.closeBracket ts bs) (hlimit : bs.length ≤ limit) {bound : Nat}
    (hbound : bs.length ≤ bound) (rest : List UInt8) :
    Reads (elements bound item) (bs ++ rest) (ts.mapM f) rest := by
  unfold elements
  cases h with
  | nil hblanks =>
    rw [List.append_assoc]
    exact Reads.token hblanks (by decide) (Reads.eat (.pure [] rest))
  | cons hblanks htext htail =>
    simp only [List.length_append] at hbound hlimit
    obtain ⟨x, more, rfl, hx, hclose⟩ := htext.exists_cons
    simp only [List.append_assoc, List.cons_append]
    refine Reads.token hblanks hx ?_
    dsimp only
    rw [if_neg hclose, List.mapM_cons]
    have hfirst := hitem htext (by omega) .nil (endsNumber_of_listTail (by decide) htail rest)
    have hmore := @moreElements_reads _ _ _ _ hitem _ _ htail (by omega) bound (by omega) rest
    refine Reads.bind hfirst fun first _ => ?_
    exact Reads.bind hmore fun more _ => .pure (first :: more) rest

/-- The elements of an array are passed over one by one. -/
theorem skipMoreElements_reads {item : Reader Unit} (hitem : ReadsAs item (fun _ => some ()) limit)
    {ts : List Tree} {bs : List UInt8} (h : ListTail ValueText Byte.closeBracket ts bs)
    (hlimit : bs.length ≤ limit) {n : Nat} (hn : bs.length ≤ n) (rest : List UInt8) :
    Reads (skipMoreElements item n) (bs ++ rest) (some ()) rest := by
  induction h generalizing n with
  | nil hblanks =>
    simp only [List.length_append, List.length_singleton] at hn
    obtain ⟨n, rfl⟩ := Nat.exists_eq_add_one_of_ne_zero (Nat.ne_zero_of_lt hn)
    unfold skipMoreElements
    rw [List.append_assoc]
    exact Reads.token hblanks (by decide) (.eat_last _ rest)
  | cons hblanks hblanks' htext htail ih =>
    simp only [List.length_append, List.length_cons] at hn hlimit
    obtain ⟨n, rfl⟩ := Nat.exists_eq_add_one_of_ne_zero (Nat.ne_zero_of_lt hn)
    unfold skipMoreElements
    simp only [List.append_assoc, List.cons_append]
    refine Reads.token hblanks (by decide) (Reads.eat ?_)
    have hfirst := hitem htext (by omega) hblanks' (endsNumber_of_listTail (by decide) htail rest)
    exact hfirst.bind_some (ih (by omega) (by omega))

theorem skipElements_reads {item : Reader Unit} (hitem : ReadsAs item (fun _ => some ()) limit)
    {ts : List Tree} {bs : List UInt8} (h : ListBody ValueText Byte.closeBracket ts bs)
    (hlimit : bs.length ≤ limit) {bound : Nat} (hbound : bs.length ≤ bound)
    (rest : List UInt8) : Reads (skipElements bound item) (bs ++ rest) (some ()) rest := by
  unfold skipElements
  cases h with
  | nil hblanks =>
    rw [List.append_assoc]
    exact Reads.token hblanks (by decide) (.eat_last _ rest)
  | cons hblanks htext htail =>
    simp only [List.length_append] at hbound hlimit
    obtain ⟨x, more, rfl, hx, hclose⟩ := htext.exists_cons
    simp only [List.append_assoc, List.cons_append]
    refine Reads.token hblanks hx ?_
    dsimp only
    rw [if_neg hclose]
    have hfirst := hitem htext (by omega) .nil (endsNumber_of_listTail (by decide) htail rest)
    exact hfirst.bind_some (skipMoreElements_reads hitem htail (by omega) (by omega) rest)

end

/-! ## Objects -/

theorem colon_reads {β : Type} {next : Unit → Reader β} {blanks bs rest : List UInt8} {b : Option β}
    (hblanks : Blanks blanks) (h : Reads (next ()) bs b rest) :
    Reads (colon >>= next) (blanks ++ Byte.colon :: bs) b rest := by
  have hcolon : Reads colon (blanks ++ Byte.colon :: bs) (some ()) bs :=
    Reads.token hblanks (by decide) (.eat_last _ bs)
  exact hcolon.bind_some h

/-- The members of an object taken in turn.  A key that stands for nothing stops it. -/
def foldMembers? {σ κ μ : Type} (key? : κ → Option String) (g : σ → String → μ → Option σ) (s : σ)
    (ms : List (κ × μ)) : Option σ :=
  ms.foldlM (fun s m => (key? m.1).bind fun key => g s key m.2) s

/-- Every member, if it is not longer than `limit`, is read from its colon on as what `g` makes of
it. -/
def MemberReadsAs (member : α → String → Reader α) (g : α → String → Tree → Option α)
    (limit : Nat) : Prop :=
  ∀ (s : α) (key : String) ⦃t : Tree⦄ ⦃bs : List UInt8⦄, ValueText t bs → bs.length ≤ limit →
    ∀ ⦃blanks blanks' rest : List UInt8⦄, Blanks blanks → Blanks blanks' → EndsNumber rest →
      Reads (member s key) (blanks ++ Byte.colon :: (blanks' ++ (bs ++ rest))) (g s key t) rest

section

variable {member : α → String → Reader α} {g : α → String → Tree → Option α} {limit bound : Nat}

/-- A member is read from its key on, and then the others. -/
theorem member_reads (hmember : MemberReadsAs member g limit) (s : α) {m : Option String × Tree}
    {bs : List UInt8} (h : MemberText ValueText m bs) (hlimit : bs.length ≤ limit)
    (hbound : bs.length ≤ bound) {others : List UInt8} (hothers : EndsNumber others)
    {next : α → Reader α} {f : α → Option α} {rest : List UInt8}
    (hnext : ∀ s, Reads (next s) others (f s) rest) :
    ∃ tail, bs = Byte.quote :: tail ∧
      Reads (do
        let key ← stringRest bound
        let s ← member s key
        next s) (tail ++ others) ((m.1.bind fun key => g s key m.2).bind f) rest := by
  obtain @⟨_, _, _, text, _, ⟨hkey⟩, hblanks, hblanks', htext⟩ := h
  refine ⟨_, quoted_append _ _, ?_⟩
  simp only [List.length_append, List.length_cons, length_quoted] at hlimit hbound
  have hlength : text.length ≤ limit := by omega
  simp only [List.append_assoc, List.cons_append]
  rw [Option.bind_assoc]
  refine (stringRest_reads hkey (by omega) _).bind fun key _ => ?_
  exact (hmember s key htext hlength hblanks hblanks' hothers).bind fun s _ => hnext s

theorem moreMembers_reads (hmember : MemberReadsAs member g limit)
    {ms : List (Option String × Tree)} {bs : List UInt8}
    (h : ListTail (MemberText ValueText) Byte.closeBrace ms bs) (hlimit : bs.length ≤ limit)
    (hbound : bs.length ≤ bound) {n : Nat} (hn : bs.length ≤ n) (s : α) (rest : List UInt8) :
    Reads (moreMembers bound member n s) (bs ++ rest) (foldMembers? id g s ms) rest := by
  induction h generalizing n s with
  | nil hblanks =>
    simp only [List.length_append, List.length_singleton] at hn
    obtain ⟨n, rfl⟩ := Nat.exists_eq_add_one_of_ne_zero (Nat.ne_zero_of_lt hn)
    unfold moreMembers
    rw [List.append_assoc]
    exact Reads.token hblanks (by decide) (Reads.eat (.pure s rest))
  | cons hblanks hblanks' hitem htail ih =>
    simp only [List.length_append, List.length_cons] at hn hlimit hbound
    obtain ⟨n, rfl⟩ := Nat.exists_eq_add_one_of_ne_zero (Nat.ne_zero_of_lt hn)
    have hothers := fun s => @ih (by omega) (by omega) n (by omega) s
    obtain ⟨text, rfl, hfirst⟩ := @member_reads _ _ _ _ bound hmember s _ _ hitem (by omega)
      (by omega) _ (endsNumber_of_listTail (by decide) htail rest) _ _ _ hothers
    unfold moreMembers
    simp only [List.append_assoc, List.cons_append]
    refine Reads.token hblanks (by decide) (Reads.eat ?_)
    refine Reads.token hblanks' (by decide) (Reads.eat ?_)
    exact hfirst

/-- The members of an object are taken in turn. -/
theorem members_reads (hmember : MemberReadsAs member g limit)
    {ms : List (Option String × Tree)} {bs : List UInt8}
    (h : ListBody (MemberText ValueText) Byte.closeBrace ms bs) (hlimit : bs.length ≤ limit)
    (hbound : bs.length ≤ bound) (s : α) (rest : List UInt8) :
    Reads (members bound member s) (bs ++ rest) (foldMembers? id g s ms) rest := by
  unfold members
  cases h with
  | nil hblanks =>
    rw [List.append_assoc]
    exact Reads.token hblanks (by decide) (Reads.eat (.pure s rest))
  | cons hblanks hitem htail =>
    simp only [List.length_append] at hbound hlimit
    have hothers := fun s => @moreMembers_reads _ _ _ _ bound hmember _ _ htail (by omega)
      (by omega) bound (by omega) s rest
    obtain ⟨text, rfl, hfirst⟩ := @member_reads _ _ _ _ bound hmember s _ _ hitem (by omega)
      (by omega) _ (endsNumber_of_listTail (by decide) htail rest) _ _ _ hothers
    simp only [List.append_assoc, List.cons_append]
    exact Reads.token hblanks (by decide) (Reads.eat hfirst)

end

section

variable {item : Reader Unit} {limit bound : Nat}

theorem skipMember_reads (hitem : ReadsAs item (fun _ => some ()) limit)
    {m : Option String × Tree} {bs : List UInt8} (h : MemberText ValueText m bs)
    (hlimit : bs.length ≤ limit) (hbound : bs.length ≤ bound) {blanks rest : List UInt8}
    (hblanks : Blanks blanks) (hrest : EndsNumber rest) :
    Reads (skipMember bound item) (blanks ++ (bs ++ rest)) (some ()) rest := by
  obtain ⟨⟨hkey⟩, hblanks₁, hblanks₂, htext⟩ := h
  simp only [List.length_append, List.length_cons, length_quoted] at hlimit hbound
  simp only [List.append_assoc, List.cons_append, quoted_append]
  unfold skipMember
  refine Reads.token hblanks (by decide) (Reads.eat ?_)
  refine (skipStringRest_reads hkey (by omega) _).bind_some (colon_reads hblanks₁ ?_)
  exact hitem htext (by omega) hblanks₂ hrest

theorem skipMoreMembers_reads (hitem : ReadsAs item (fun _ => some ()) limit)
    {ms : List (Option String × Tree)} {bs : List UInt8}
    (h : ListTail (MemberText ValueText) Byte.closeBrace ms bs) (hlimit : bs.length ≤ limit)
    (hbound : bs.length ≤ bound) {n : Nat} (hn : bs.length ≤ n) (rest : List UInt8) :
    Reads (skipMoreMembers bound item n) (bs ++ rest) (some ()) rest := by
  induction h generalizing n with
  | nil hblanks =>
    simp only [List.length_append, List.length_singleton] at hn
    obtain ⟨n, rfl⟩ := Nat.exists_eq_add_one_of_ne_zero (Nat.ne_zero_of_lt hn)
    unfold skipMoreMembers
    rw [List.append_assoc]
    exact Reads.token hblanks (by decide) (.eat_last _ rest)
  | cons hblanks hblanks' hmember htail ih =>
    simp only [List.length_append, List.length_cons] at hn hlimit hbound
    obtain ⟨n, rfl⟩ := Nat.exists_eq_add_one_of_ne_zero (Nat.ne_zero_of_lt hn)
    unfold skipMoreMembers
    simp only [List.append_assoc, List.cons_append]
    refine Reads.token hblanks (by decide) (Reads.eat ?_)
    have hfirst := @skipMember_reads _ _ bound hitem _ _ hmember (by omega) (by omega) _ _ hblanks'
      (endsNumber_of_listTail (by decide) htail rest)
    exact hfirst.bind_some (ih (by omega) (by omega) (by omega))

/-- The members of an object are passed over one by one. -/
theorem skipMembers_reads (hitem : ReadsAs item (fun _ => some ()) limit)
    {ms : List (Option String × Tree)} {bs : List UInt8}
    (h : ListBody (MemberText ValueText) Byte.closeBrace ms bs) (hlimit : bs.length ≤ limit)
    (hbound : bs.length ≤ bound) (rest : List UInt8) :
    Reads (skipMembers bound item) (bs ++ rest) (some ()) rest := by
  unfold skipMembers
  cases h with
  | nil hblanks =>
    rw [List.append_assoc]
    exact Reads.token hblanks (by decide) (.eat_last _ rest)
  | cons hblanks hmember htail =>
    simp only [List.length_append] at hbound hlimit
    have hfirst := @skipMember_reads _ _ bound hitem _ _ hmember (by omega) (by omega) [] _ .nil
      (endsNumber_of_listTail (by decide) htail rest)
    obtain ⟨⟨hkey⟩, _, _, _⟩ := hmember
    simp only [List.append_assoc, List.cons_append, quoted_append] at hfirst ⊢
    refine Reads.token hblanks (by decide) ?_
    exact hfirst.bind_some
      (skipMoreMembers_reads hitem htail (by omega) (by omega) (by omega) rest)

end

end Reader

end SchemaToGo.Json
