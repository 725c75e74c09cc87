import SchemaToGo.Proofs.Json.Whole
set_option autoImplicit false

/-!
# Misfits

A JSON text whose literals have values gives a reader no reason to call it faulty.  `Misfits` says
that a reader fails for misfits only.  There is a rule for each way in which readers are put
together; what a step leaves to the next one is known from how it reads.
-/

namespace SchemaToGo.Json

/-- The literal that the tree may be has a value.  What stands inside an array or an object does not
matter. -/
inductive Tree.LiteralDecodes : Tree → Prop
  | null : LiteralDecodes .null
  | bool (b : Bool) : LiteralDecodes (.bool b)
  | number (n : Number) : LiteralDecodes (.number (some n))
  | string (s : String) : LiteralDecodes (.string (some s))
  | array (ts : List Tree) : LiteralDecodes (.array ts)
  | object (ms : List (Option String × Tree)) : LiteralDecodes (.object ms)

theorem Tree.LiteralDecodes.exists_number {n : Option Number} (h : LiteralDecodes (.number n)) :
    ∃ x, n = some x := by
  cases h
  exact ⟨_, rfl⟩

theorem Tree.LiteralDecodes.exists_string {s : Option String} (h : LiteralDecodes (.string s)) :
    ∃ x, s = some x := by
  cases h
  exact ⟨_, rfl⟩

/-- There is room for the array that the tree may be, and `p` holds of its elements; or the literal
that the tree is has a value.  Without `p` there is no room for an array. -/
def Tree.LegibleList (p : Option (Tree → Prop)) : Tree → Prop
  | .array ts => ∃ q, p = some q ∧ ∀ t ∈ ts, q t
  | t => t.LiteralDecodes

theorem Tree.LegibleList.literalDecodes {p : Option (Tree → Prop)} {t : Tree}
    (h : t.LegibleList p) : t.LiteralDecodes := by
  cases t with
  | array ts => exact .array ts
  | _ => exact h

namespace Reader

variable {α β : Type}

/-- From these bytes on, the reader fails only because something does not fit. -/
def Misfits (r : Reader α) (bs : List UInt8) : Prop :=
  ∀ c : Cursor, c.rest = bs → ∀ e, r c = .error e → ∃ m, e.cause = .misfit m

variable {bs mid rest : List UInt8} {r : Reader α} {next : α → Reader β}

theorem Misfits.of_reads {a : α} (h : Reads r bs (some a) rest) : Misfits r bs := by
  intro c hc e he
  obtain ⟨c', hrun, -⟩ := h c hc
  rw [hrun] at he
  exact absurd he nofun

theorem Misfits.of_error (h : ∀ c, ∃ m i, r c = .error ⟨.misfit m, i⟩) : Misfits r bs := by
  intro c _ e he
  obtain ⟨m, i, hrun⟩ := h c
  rw [hrun] at he
  exact ⟨m, (congrArg Failure.cause (Except.error.inj he)).symm⟩

theorem Misfits.pure (a : α) : Misfits (pure a : Reader α) bs := .of_reads (Reads.pure a bs)

/-- A step that may fail for a misfit, and the next one. -/
theorem Misfits.bind {a : Option α} (hreads : Reads r bs a mid) (h : Misfits r bs)
    (hnext : ∀ x, a = some x → Misfits (next x) mid) : Misfits (r >>= next) bs := by
  intro c hc e he
  have hbind : (r >>= next) c = (r c >>= fun x => next x.1 x.2) := rfl
  rw [hbind] at he
  cases a with
  | none =>
    obtain ⟨e', hrun⟩ := hreads c hc
    rw [hrun] at he
    exact h c hc e (hrun.trans (congrArg Except.error (Except.error.inj he)))
  | some a =>
    obtain ⟨c', hrun, hc'⟩ := hreads c hc
    rw [hrun] at he
    exact hnext a rfl c' hc' e he

/-- A step that succeeds, and the next one. -/
theorem Misfits.bind_some {a : α} (hreads : Reads r bs (some a) mid)
    (hnext : Misfits (next a) mid) : Misfits (r >>= next) bs :=
  .bind hreads (.of_reads hreads) fun _ hx => Option.some.inj hx ▸ hnext

/-- What is read is only turned into something else. -/
theorem Misfits.map (h : Misfits r bs) (f : α → β) : Misfits (do return f (← r)) bs := by
  intro c hc e he
  have hbind : (do return f (← r) : Reader β) c = (r c >>= fun x => .ok (f x.1, x.2)) := rfl
  rw [hbind] at he
  cases hrun : r c with
  | error e' =>
    rw [hrun] at he
    exact h c hc e (hrun.trans (congrArg Except.error (Except.error.inj he)))
  | ok x =>
    rw [hrun] at he
    exact absurd he nofun

/-! ## Bytes -/

theorem Misfits.eat {x : UInt8} {next : Unit → Reader β} (h : Misfits (next ()) bs) :
    Misfits (eat >>= next) (x :: bs) := .bind_some (Reads.eat_last x bs) h

section

variable {next : Option UInt8 → Reader β}

theorem Misfits.peek (h : Misfits (next bs.head?) bs) : Misfits (peek? >>= next) bs :=
  .bind_some (fun c hc => ⟨c, by rw [← hc]; rfl, hc⟩) h

theorem Misfits.token {blanks : List UInt8} {x : UInt8} (h : Blanks blanks)
    (hx : Byte.isBlank x = false) (hnext : Misfits (next (some x)) (x :: bs)) :
    Misfits (peekToken? >>= next) (blanks ++ x :: bs) := .bind_some (Reads.peekToken h hx) hnext

/-- A number is the next token where it starts. -/
theorem Misfits.numberToken {blanks : List UInt8} (h : NumberLiteral bs) (hblanks : Blanks blanks)
    (hnext : ∀ x, (x = Byte.minus ∨ Byte.isDigit x = true) →
      Misfits (next (some x)) (bs ++ rest)) :
    Misfits (peekToken? >>= next) (blanks ++ (bs ++ rest)) := by
  obtain ⟨x, tail, rfl, hx⟩ := exists_cons_of_numberLiteral h
  exact .token hblanks (not_isBlank_of_startsNumber hx) (hnext x hx)

end

/-! ## Arrays -/

/-- On the texts of trees that satisfy `P`, if they are not longer than `limit`, the reader fails
for misfits only. -/
def MisfitsOn (item : Reader α) (P : Tree → Prop) (limit : Nat) : Prop :=
  ∀ ⦃t : Tree⦄ ⦃bs : List UInt8⦄, ValueText t bs → bs.length ≤ limit → P t →
    ∀ ⦃blanks rest : List UInt8⦄, Blanks blanks → EndsNumber rest →
      Misfits item (blanks ++ (bs ++ rest))

section

variable {item : Reader α} {f : Tree → Option α} {P : Tree → Prop} {limit : Nat}
  (hreads : ReadsAs item f limit) (hitem : MisfitsOn item P limit)
include hreads hitem

theorem moreElements_misfits {ts : List Tree} {bs : List UInt8}
    (h : ListTail ValueText Byte.closeBracket ts bs) (hts : ∀ t ∈ ts, P t)
    (hlimit : bs.length ≤ limit) {n : Nat} (hn : bs.length ≤ n) (rest : List UInt8) :
    Misfits (moreElements item n) (bs ++ rest) := by
  induction h generalizing n with
  | nil hblanks =>
    simp only [List.length_append, List.length_singleton] at hn
    obtain ⟨n, rfl⟩ := Nat.exists_eq_add_one_of_ne_zero (Nat.ne_zero_of_lt hn)
    unfold moreElements
    rw [List.append_assoc]
    exact .token hblanks (by decide) (.eat (.pure []))
  | @cons blanks blanks' bs tail t ts hblanks hblanks' htext htail ih =>
    simp only [List.length_append, List.length_cons] at hn hlimit
    obtain ⟨n, rfl⟩ := Nat.exists_eq_add_one_of_ne_zero (Nat.ne_zero_of_lt hn)
    obtain ⟨ht, hts⟩ := List.forall_mem_cons.mp hts
    have hends := endsNumber_of_listTail (by decide) htail rest
    have hfirst := hreads htext (by omega) .nil hends
    have hmisfits := hitem htext (by omega) ht .nil hends
    obtain ⟨x, more, rfl, hx, hclose⟩ := htext.exists_cons
    unfold moreElements
    simp only [List.append_assoc, List.cons_append]
    refine .token hblanks (by decide) (.eat (.token hblanks' hx ?_))
    dsimp only
    rw [if_neg hclose]
    exact .bind hfirst hmisfits fun first _ => (@ih hts (by omega) n (by omega)).map _

theorem elements_misfits {ts : List Tree} {bs : List UInt8}
    (h : ListBody ValueText Byte.closeBracket ts bs) (hts : ∀ t ∈ ts, P t)
    (hlimit : bs.length ≤ limit) {bound : Nat} (hbound : bs.length ≤ bound) (rest : List UInt8) :
    Misfits (elements bound item) (bs ++ rest) := by
  unfold elements
  cases h with
  | nil hblanks =>
    rw [List.append_assoc]
    exact .token hblanks (by decide) (.eat (.pure []))
  | cons hblanks htext htail =>
    simp only [List.length_append] at hbound hlimit
    obtain ⟨ht, hts⟩ := List.forall_mem_cons.mp hts
    have hends := endsNumber_of_listTail (by decide) htail rest
    have hfirst := hreads htext (by omega) .nil hends
    have hmisfits := hitem htext (by omega) ht .nil hends
    obtain ⟨x, more, rfl, hx, hclose⟩ := htext.exists_cons
    simp only [List.append_assoc, List.cons_append]
    refine .token hblanks hx ?_
    dsimp only
    rw [if_neg hclose]
    refine .bind hfirst hmisfits fun first _ => ?_
    exact (moreElements_misfits hreads hitem htail hts (by omega) (by omega) rest).map _

end

/-! ## Objects -/

theorem colon_misfits {next : Unit → Reader β} {blanks bs : List UInt8} (hblanks : Blanks blanks)
    (h : Misfits (next ()) bs) : Misfits (colon >>= next) (blanks ++ Byte.colon :: bs) := by
  have hcolon : Reads colon (blanks ++ Byte.colon :: bs) (some ()) bs :=
    Reads.token hblanks (by decide) (.eat_last _ bs)
  exact .bind_some hcolon h

/-- Members that satisfy `P` are refused for misfits only, from their colons on. -/
def MemberMisfitsOn (member : α → String → Reader α) (P : String → Tree → Prop) (limit : Nat) :
    Prop :=
  ∀ (s : α) (key : String) ⦃t : Tree⦄ ⦃bs : List UInt8⦄, ValueText t bs → bs.length ≤ limit →
    P key t → ∀ ⦃blanks blanks' rest : List UInt8⦄, Blanks blanks → Blanks blanks' →
      EndsNumber rest → Misfits (member s key) (blanks ++ Byte.colon :: (blanks' ++ (bs ++ rest)))

section

variable {member : α → String → Reader α} {g : α → String → Tree → Option α}
  {P : String → Tree → Prop} {limit bound : Nat} (hreads : MemberReadsAs member g limit)
  (hmember : MemberMisfitsOn member P limit)
include hreads hmember

/-- A member is read from its key on, and then the others. -/
theorem member_misfits (s : α) {m : Option String × Tree} {bs : List UInt8}
    (h : MemberText ValueText m bs) (hm : ∃ key, m.1 = some key ∧ P key m.2)
    (hlimit : bs.length ≤ limit) (hbound : bs.length ≤ bound) {others : List UInt8}
    (hothers : EndsNumber others) {next : α → Reader α} (hnext : ∀ s, Misfits (next s) others) :
    ∃ tail, bs = Byte.quote :: tail ∧
      Misfits (do
        let key ← stringRest bound
        let s ← member s key
        next s) (tail ++ others) := by
  obtain @⟨_, _, _, text, t, @⟨letters, hkey⟩, hblanks, hblanks', htext⟩ := h
  obtain ⟨key, hdecode, hP⟩ := hm
  replace hdecode : decodeLiteral? (quoted letters) = some key := hdecode
  refine ⟨_, quoted_append _ _, ?_⟩
  simp only [List.length_append, List.length_cons, length_quoted] at hlimit hbound
  have hlength : text.length ≤ limit := by omega
  simp only [List.append_assoc, List.cons_append]
  have hstring := @stringRest_reads _ hkey bound (by omega)
  rw [hdecode] at hstring
  refine .bind_some (hstring _) ?_
  have hread := hreads s key htext hlength hblanks hblanks' hothers
  exact .bind hread (hmember s key htext hlength hP hblanks hblanks' hothers) fun s _ => hnext s

theorem moreMembers_misfits {ms : List (Option String × Tree)} {bs : List UInt8}
    (h : ListTail (MemberText ValueText) Byte.closeBrace ms bs)
    (hms : ∀ m ∈ ms, ∃ key, m.1 = some key ∧ P key m.2) (hlimit : bs.length ≤ limit)
    (hbound : bs.length ≤ bound) {n : Nat} (hn : bs.length ≤ n) (s : α) (rest : List UInt8) :
    Misfits (moreMembers bound member n s) (bs ++ rest) := by
  induction h generalizing n s with
  | nil hblanks =>
    simp only [List.length_append, List.length_singleton] at hn
    obtain ⟨n, rfl⟩ := Nat.exists_eq_add_one_of_ne_zero (Nat.ne_zero_of_lt hn)
    unfold moreMembers
    rw [List.append_assoc]
    exact .token hblanks (by decide) (.eat (.pure s))
  | cons hblanks hblanks' hitem htail ih =>
    simp only [List.length_append, List.length_cons] at hn hlimit hbound
    obtain ⟨n, rfl⟩ := Nat.exists_eq_add_one_of_ne_zero (Nat.ne_zero_of_lt hn)
    obtain ⟨hm, hms⟩ := List.forall_mem_cons.mp hms
    have hothers := fun s => @ih hms (by omega) (by omega) n (by omega) s
    obtain ⟨text, rfl, hfirst⟩ := @member_misfits _ _ _ _ _ bound hreads hmember s _ _ hitem hm
      (by omega) (by omega) _ (endsNumber_of_listTail (by decide) htail rest) _ hothers
    unfold moreMembers
    simp only [List.append_assoc, List.cons_append]
    refine .token hblanks (by decide) (.eat ?_)
    exact .token hblanks' (by decide) (.eat hfirst)

theorem members_misfits {ms : List (Option String × Tree)} {bs : List UInt8}
    (h : ListBody (MemberText ValueText) Byte.closeBrace ms bs)
    (hms : ∀ m ∈ ms, ∃ key, m.1 = some key ∧ P key m.2) (hlimit : bs.length ≤ limit)
    (hbound : bs.length ≤ bound) (s : α) (rest : List UInt8) :
    Misfits (members bound member s) (bs ++ rest) := by
  unfold members
  cases h with
  | nil hblanks =>
    rw [List.append_assoc]
    exact .token hblanks (by decide) (.eat (.pure s))
  | cons hblanks hitem htail =>
    simp only [List.length_append] at hbound hlimit
    obtain ⟨hm, hms⟩ := List.forall_mem_cons.mp hms
    have hothers := fun s => @moreMembers_misfits _ _ _ _ _ bound hreads hmember _ _ htail hms
      (by omega) (by omega) bound (by omega) s rest
    obtain ⟨text, rfl, hfirst⟩ := @member_misfits _ _ _ _ _ bound hreads hmember s _ _ hitem hm
      (by omega) (by omega) _ (endsNumber_of_listTail (by decide) htail rest) _ hothers
    simp only [List.append_assoc, List.cons_append]
    exact .token hblanks (by decide) (.eat hfirst)

end

/-! ## Values of one kind -/

variable {bound : Nat}

/-- A value of the wrong kind is refused for that, if the literal that it may be has a value. -/
theorem refuseKind_misfits {t : Tree} {bs : List UInt8} (htext : ValueText t bs)
    (ht : t.LiteralDecodes) (hbound : bs.length ≤ bound) (wanted : Wanted) {rest : List UInt8}
    (hrest : EndsNumber rest) :
    Misfits (refuseKind bound wanted : Reader α) (bs ++ rest) := by
  have hrefuse (found : Found) (bs : List UInt8) : Misfits (do
      let found ← (pure found : Reader Found)
      fun c => .error ⟨.misfit (.wrongKind found wanted), c.index⟩ : Reader α) bs :=
    .of_error fun c => ⟨_, _, rfl⟩
  unfold refuseKind
  cases htext with
  | nullName => exact .peek (.eat (.bind_some (Reads.nameRest _ rest) (hrefuse .null rest)))
  | trueName => exact .peek (.eat (.bind_some (Reads.nameRest _ rest) (hrefuse (.bool true) rest)))
  | falseName =>
    exact .peek (.eat (.bind_some (Reads.nameRest _ rest) (hrefuse (.bool false) rest)))
  | number h =>
    obtain ⟨n, hn⟩ := ht.exists_number
    have hread := number_reads h hrest
    rw [hn] at hread
    obtain ⟨x, tail, rfl, hx⟩ := exists_cons_of_numberLiteral h
    refine .peek ?_
    dsimp only [List.cons_append, List.head?_cons]
    rw [if_neg (ne_of_startsNumber hx (by decide) (by decide)),
      if_neg (ne_of_startsNumber hx (by decide) (by decide)),
      if_neg (ne_of_startsNumber hx (by decide) (by decide)), if_pos hx]
    exact .bind_some hread (hrefuse (.number n) rest)
  | string h =>
    obtain ⟨s, hs⟩ := ht.exists_string
    obtain ⟨hcharacters⟩ := h
    rw [length_quoted] at hbound
    have hread := @stringRest_reads _ hcharacters bound (by omega) rest
    rw [hs] at hread
    rw [quoted_append]
    exact .peek (.eat (.bind_some hread (hrefuse (.string s) rest)))
  | array _ => exact .peek (hrefuse .array _)
  | object _ => exact .peek (hrefuse .object _)

theorem nullable_misfits {item : Reader α} {P : Tree → Prop} {limit : Nat}
    (hitem : MisfitsOn item P limit) : MisfitsOn (nullable item) P limit := by
  intro t bs htext hlength ht blanks rest hblanks hrest
  have hmisfits := hitem htext hlength ht .nil hrest
  unfold nullable
  cases htext with
  | nullName =>
    refine .token hblanks (by decide) (.eat ?_)
    exact .bind_some (Reads.nameRest _ rest) (.pure none)
  | number h =>
    refine .numberToken h hblanks fun x hx => ?_
    rw [if_neg fun hn => ne_of_startsNumber hx (by decide) (by decide) (Option.some.inj hn)]
    exact hmisfits.map some
  | string h =>
    obtain ⟨_⟩ := h
    exact .token hblanks (by decide) (hmisfits.map some)
  | _ => exact .token hblanks (by decide) (hmisfits.map some)

theorem text_misfits : MisfitsOn (text bound) Tree.LiteralDecodes bound := by
  intro t bs htext hlength ht blanks rest hblanks hrest
  have hrefuse := refuseKind_misfits (α := String) htext ht hlength .string hrest
  unfold text
  cases htext with
  | string h =>
    obtain ⟨s, hs⟩ := ht.exists_string
    obtain ⟨hcharacters⟩ := h
    rw [length_quoted] at hlength
    have hread := @stringRest_reads _ hcharacters bound (by omega) rest
    rw [hs] at hread
    rw [quoted_append]
    exact .token hblanks (by decide) (.eat (.of_reads hread))
  | number h =>
    refine .numberToken h hblanks fun x hx => ?_
    dsimp only
    rw [if_neg (ne_of_startsNumber hx (by decide) (by decide))]
    exact hrefuse
  | _ => exact .token hblanks (by decide) hrefuse

/-- If there may be something inside an array or an object, it is refused for misfits only. -/
def MisfitsInside (item : Option (Reader α)) (P : Option (Tree → Prop)) (limit : Nat) : Prop :=
  ∀ p, P = some p → ∃ r f, item = some r ∧ ReadsAs r f limit ∧ MisfitsOn r p limit

theorem MisfitsInside.none {limit : Nat} :
    MisfitsInside (none : Option (Reader α)) (none : Option (Tree → Prop)) limit :=
  fun _ hp => nomatch hp

theorem MisfitsInside.some {item : Reader α} {f : Tree → Option α} {P : Tree → Prop} {limit : Nat}
    (hreads : ReadsAs item f limit) (hitem : MisfitsOn item P limit) :
    MisfitsInside (some item) (some P) limit :=
  fun _ hp => ⟨item, f, rfl, hreads, Option.some.inj hp ▸ hitem⟩

theorem list_misfits {item : Option (Reader α)} {P : Option (Tree → Prop)}
    (hitem : MisfitsInside item P bound) :
    MisfitsOn (list bound item) (Tree.LegibleList P) bound := by
  intro t bs htext hlength ht blanks rest hblanks hrest
  have hrefuse := refuseKind_misfits (α := List α) htext ht.literalDecodes hlength .list hrest
  unfold list
  cases htext with
  | array h =>
    have hlength := Nat.le_of_succ_le hlength
    obtain ⟨p, hp, hts⟩ := ht
    obtain ⟨r, f, rfl, hreads, hmisfits⟩ := hitem p hp
    refine .token hblanks (by decide) (.eat ?_)
    exact elements_misfits hreads hmisfits h hts hlength hlength rest
  | number h =>
    refine .numberToken h hblanks fun x hx => ?_
    dsimp only
    rw [if_neg (ne_of_startsNumber hx (by decide) (by decide))]
    exact hrefuse
  | string h =>
    obtain ⟨_⟩ := h
    exact .token hblanks (by decide) hrefuse
  | _ => exact .token hblanks (by decide) hrefuse

end Reader

end SchemaToGo.Json
