import SchemaToGo.Proofs.Json.Reads
set_option autoImplicit false

/-!
# How number literals are read

A number ends where no byte follows that it may go on with.  Up to there, what is read does not
depend on what follows, so a number literal has one value, whatever text it is in.
-/

namespace SchemaToGo.Json.Reader

/-! ## The end of a number -/

/-- A byte that a number may go on with. -/
def continuesNumber (b : UInt8) : Bool := Byte.isDigit b || b == Byte.point || isExponentMark b

/-- A number may end before these bytes. -/
def EndsNumber (bs : List UInt8) : Prop := ∀ b ∈ bs.head?, continuesNumber b = false

theorem EndsNumber.not_isDigit {bs : List UInt8} (h : EndsNumber bs) {b : UInt8}
    (hb : b ∈ bs.head?) : Byte.isDigit b = false := by
  have := h b hb
  simp only [continuesNumber, Bool.or_eq_false_iff] at this
  exact this.1.1

theorem EndsNumber.ne_point {bs : List UInt8} (h : EndsNumber bs) {b : UInt8}
    (hb : b ∈ bs.head?) : b ≠ Byte.point := by
  have := h b hb
  simp only [continuesNumber, Bool.or_eq_false_iff, beq_eq_false_iff_ne] at this
  exact this.1.2

theorem EndsNumber.not_isExponentMark {bs : List UInt8} (h : EndsNumber bs) {b : UInt8}
    (hb : b ∈ bs.head?) : isExponentMark b = false := by
  have := h b hb
  simp only [continuesNumber, Bool.or_eq_false_iff] at this
  exact this.2

theorem not_isDigit_of_isExponentMark {b : UInt8} (h : isExponentMark b = true) :
    Byte.isDigit b = false := by
  simp only [isExponentMark, Bool.or_eq_true, beq_iff_eq] at h
  rcases h with rfl | rfl <;> decide

theorem ne_point_of_isExponentMark {b : UInt8} (h : isExponentMark b = true) :
    b ≠ Byte.point := by
  rintro rfl
  exact absurd h (by decide)

/-! ## Numbers read -/

/-- What the reader gets from these bytes does not depend on what follows them. -/
def Settles {α : Type} (r : Reader α) (bs : List UInt8) : Prop :=
  ∃ a, ∀ rest, EndsNumber rest → Reads r (bs ++ rest) a rest

theorem floating_settles (negative : Bool) (significand : Nat) (exponent : Int) :
    Settles (floating negative significand exponent) [] := by
  unfold floating
  cases Decimal.Binary64.ofDecimal? significand exponent with
  | none => exact ⟨none, fun rest _ => .failHere _⟩
  | some x => exact ⟨some _, fun rest _ => .pure _ rest⟩

theorem whole_settles (negative : Bool) (n : Nat) : Settles (whole negative n) [] := by
  unfold whole
  split
  · exact ⟨some _, fun rest _ => .pure _ rest⟩
  · split
    · exact ⟨some _, fun rest _ => .pure _ rest⟩
    · exact ⟨some _, fun rest _ => .pure _ rest⟩

theorem digits_reads {ds rest : List UInt8} (h : Digits ds)
    (hrest : ∀ b ∈ rest.head?, Byte.isDigit b = false) :
    Reads digits (ds ++ rest) (some (ds.map Byte.digitValue)) rest :=
  (Reads.takeWhile h hrest).map _

theorem exponentSign_reads {sign : List UInt8} (h : sign ∈ [[], [Byte.plus], [Byte.minus]])
    {d : UInt8} (hd : Byte.isDigit d = true) :
    ∃ down, ∀ rest, Reads exponentSign (sign ++ d :: rest) (some down) (d :: rest) := by
  unfold exponentSign
  simp only [List.mem_cons, List.not_mem_nil, or_false] at h
  rcases h with rfl | rfl | rfl
  · refine ⟨false, fun rest => Reads.peek ?_⟩
    dsimp only [List.nil_append, List.head?_cons]
    rw [if_neg (by rintro rfl; exact absurd hd (by decide)),
      if_neg (by rintro rfl; exact absurd hd (by decide))]
    exact .pure _ _
  · refine ⟨false, fun rest => Reads.peek ?_⟩
    exact Reads.eat (.pure _ _)
  · refine ⟨true, fun rest => Reads.peek ?_⟩
    exact Reads.eat (.pure _ _)

/-- What is read from an exponent depends on its sign and its digits. -/
theorem exponentDigits_reads {sign : List UInt8} (hsign : sign ∈ [[], [Byte.plus], [Byte.minus]])
    {d : UInt8} {ds : List UInt8} (h : Digits (d :: ds)) :
    ∃ down, ∀ {next : Bool → UInt8 → Cursor → List Nat → Reader Number} {a : Option Number}
      {rest : List UInt8}, EndsNumber rest →
      (∀ c, Reads (next down d c (ds.map Byte.digitValue)) rest a rest) →
      Reads (do
        let down ← exponentSign
        match ← peek? with
        | none => failHere .endInValue
        | some b =>
          eat
          if Byte.isDigit b = false then failHere .invalidNumber
          let start ← get
          let ds ← digits
          next down b start ds) (sign ++ (d :: ds) ++ rest) a rest := by
  have hd : Byte.isDigit d = true := h d List.mem_cons_self
  have hds : Digits ds := fun b hb => h b (List.mem_cons_of_mem d hb)
  obtain ⟨down, hdown⟩ := exponentSign_reads hsign hd
  refine ⟨down, fun hrest hnext => ?_⟩
  rw [List.append_assoc, List.cons_append]
  refine (hdown _).bind_some (Reads.peek (Reads.eat ?_))
  dsimp only
  rw [if_neg (by rw [hd]; decide)]
  exact Reads.get fun c _ => (digits_reads hds fun _ => hrest.not_isDigit).bind_some (hnext c)

theorem exponentRest_settles (negative : Bool) (significand : Nat) (exponent : Int)
    {sign : List UInt8} (hsign : sign ∈ [[], [Byte.plus], [Byte.minus]]) {d : UInt8}
    {ds : List UInt8} (h : Digits (d :: ds)) :
    Settles (exponentRest negative significand exponent) (sign ++ d :: ds) := by
  obtain ⟨down, hdown⟩ := exponentDigits_reads hsign h
  unfold exponentRest
  cases hvalue : exponentOf (Byte.digitValue d) (ds.map Byte.digitValue) with
  | ok e =>
    obtain ⟨a, ha⟩ := floating_settles negative significand
      (if down then exponent - e else exponent + e)
    refine ⟨a, fun rest hrest => hdown hrest fun c => ?_⟩
    rw [hvalue]
    exact ha rest hrest
  | error k =>
    by_cases hlarge : significand ≠ 0 ∧ down = false
    · refine ⟨none, fun rest hrest => hdown hrest fun c => ?_⟩
      rw [hvalue]
      dsimp only
      rw [if_pos hlarge]
      exact .of_error fun _ => ⟨_, rfl⟩
    · refine ⟨some (.floating negative (Decimal.Binary64.ofNat 0)), fun rest hrest =>
        hdown hrest fun c => ?_⟩
      rw [hvalue]
      dsimp only
      rw [if_neg hlarge]
      exact .pure _ rest

/-- Without an exponent the number ends after its digits. -/
theorem afterDigits_reads {negative : Bool} {significand : Nat} {exponent : Int}
    {a : Option Number} {rest : List UInt8} (hrest : EndsNumber rest)
    (h : Reads (floating negative significand exponent) rest a rest) :
    Reads (afterDigits negative significand exponent) rest a rest := by
  unfold afterDigits
  refine Reads.peek ?_
  cases hhead : rest.head? with
  | none => exact h
  | some b =>
    dsimp only
    rw [hrest.not_isExponentMark hhead]
    exact h

theorem afterDigits_settles (negative : Bool) (significand : Nat) (exponent : Int)
    {bs : List UInt8} (h : ExponentPart bs) :
    Settles (afterDigits negative significand exponent) bs := by
  cases h with
  | absent =>
    obtain ⟨a, ha⟩ := floating_settles negative significand exponent
    exact ⟨a, fun rest hrest => afterDigits_reads hrest (ha rest hrest)⟩
  | digits hmark hsign h =>
    obtain ⟨a, ha⟩ := exponentRest_settles negative significand exponent hsign h
    unfold afterDigits
    refine ⟨a, fun rest hrest => Reads.peek ?_⟩
    dsimp only [List.cons_append, List.head?_cons]
    rw [hmark]
    exact Reads.eat (ha rest hrest)

/-- Neither an exponent nor what follows a number starts with a digit. -/
theorem not_isDigit_of_exponentPart {bs rest : List UInt8} (h : ExponentPart bs)
    (hrest : EndsNumber rest) : ∀ b ∈ (bs ++ rest).head?, Byte.isDigit b = false := by
  cases h with
  | absent => exact fun b => hrest.not_isDigit
  | digits hmark _ _ =>
    intro b hb
    exact Option.some.inj hb ▸ not_isDigit_of_isExponentMark hmark

theorem fractionRest_settles (negative : Bool) (significand : Nat) (exponent : Int) {d : UInt8}
    {ds bs : List UInt8} (hds : Digits (d :: ds)) (h : ExponentPart bs) :
    Settles (fractionRest negative significand exponent) (d :: ds ++ bs) := by
  obtain ⟨a, ha⟩ := afterDigits_settles negative
    (appendDigits significand ((d :: ds).map Byte.digitValue)).1
    (exponent - (appendDigits significand ((d :: ds).map Byte.digitValue)).2) h
  refine ⟨a, fun rest hrest => ?_⟩
  unfold fractionRest
  rw [List.append_assoc]
  exact (digits_reads hds (not_isDigit_of_exponentPart h hrest)).bind_some
    (ha rest hrest)

theorem afterWhole_settles (negative : Bool) (significand dropped : Nat)
    {fraction exponent : List UInt8} (hfraction : FractionPart fraction)
    (hexponent : ExponentPart exponent) :
    Settles (afterWhole negative significand dropped) (fraction ++ exponent) := by
  unfold afterWhole
  cases hfraction with
  | digits hds =>
    obtain ⟨a, ha⟩ := fractionRest_settles negative significand dropped hds hexponent
    exact ⟨a, fun rest hrest => Reads.peek (Reads.eat (ha rest hrest))⟩
  | absent =>
    cases hexponent with
    | digits hmark hsign h =>
      obtain ⟨a, ha⟩ := afterDigits_settles negative significand dropped (.digits hmark hsign h)
      refine ⟨a, fun rest hrest => Reads.peek ?_⟩
      dsimp only [List.nil_append, List.cons_append, List.head?_cons]
      rw [if_neg (ne_point_of_isExponentMark hmark), if_pos (.inl hmark)]
      exact ha rest hrest
    | absent =>
      by_cases hdropped : 0 < dropped
      · obtain ⟨a, ha⟩ := floating_settles negative significand dropped
        refine ⟨a, fun rest hrest => Reads.peek ?_⟩
        rw [List.nil_append, List.nil_append]
        cases hhead : rest.head? with
        | none =>
          dsimp only
          rw [if_pos hdropped]
          exact ha rest hrest
        | some b =>
          dsimp only
          rw [if_neg (hrest.ne_point hhead), if_pos (.inr hdropped)]
          exact afterDigits_reads hrest (ha rest hrest)
      · obtain ⟨a, ha⟩ := whole_settles negative significand
        refine ⟨a, fun rest hrest => Reads.peek ?_⟩
        rw [List.nil_append, List.nil_append]
        cases hhead : rest.head? with
        | none =>
          dsimp only
          rw [if_neg hdropped]
          exact ha rest hrest
        | some b =>
          dsimp only
          rw [if_neg (hrest.ne_point hhead), hrest.not_isExponentMark hhead,
            if_neg (not_or.mpr ⟨Bool.false_ne_true, hdropped⟩)]
          exact ha rest hrest

/-- What follows the whole part of a number does not start with a digit. -/
theorem not_isDigit_of_fractionPart {fraction exponent rest : List UInt8}
    (hfraction : FractionPart fraction) (hexponent : ExponentPart exponent)
    (hrest : EndsNumber rest) :
    ∀ b ∈ (fraction ++ (exponent ++ rest)).head?, Byte.isDigit b = false := by
  cases hfraction with
  | absent =>
    rw [List.nil_append]
    exact not_isDigit_of_exponentPart hexponent hrest
  | digits _ =>
    intro b hb
    exact Option.some.inj hb ▸ rfl

theorem unsigned_settles (negative : Bool) {whole fraction exponent : List UInt8}
    (hwhole : WholePart whole) (hfraction : FractionPart fraction)
    (hexponent : ExponentPart exponent) :
    Settles (unsigned negative) (whole ++ (fraction ++ exponent)) := by
  unfold unsigned
  cases hwhole with
  | zero =>
    obtain ⟨a, ha⟩ := afterWhole_settles negative 0 0 hfraction hexponent
    refine ⟨a, fun rest hrest => ?_⟩
    have hread := ha rest hrest
    have hdigit := not_isDigit_of_fractionPart hfraction hexponent hrest
    rw [List.append_assoc] at hread
    rw [List.append_assoc, List.append_assoc, List.cons_append, List.nil_append]
    refine Reads.peek (Reads.eat ?_)
    rw [if_pos rfl]
    refine Reads.peek ?_
    cases hhead : (fraction ++ (exponent ++ rest)).head? with
    | none => exact hread
    | some b =>
      dsimp only
      rw [hdigit b hhead]
      exact hread
  | @digits d ds hd hne hds =>
    obtain ⟨a, ha⟩ := afterWhole_settles negative
      (appendDigits (Byte.digitValue d) (ds.map Byte.digitValue)).1
      ((ds.map Byte.digitValue).length -
        (appendDigits (Byte.digitValue d) (ds.map Byte.digitValue)).2) hfraction hexponent
    refine ⟨a, fun rest hrest => ?_⟩
    have hread := ha rest hrest
    have hdigit := not_isDigit_of_fractionPart hfraction hexponent hrest
    rw [List.append_assoc] at hread
    rw [List.append_assoc, List.append_assoc, List.cons_append]
    refine Reads.peek (Reads.eat ?_)
    rw [if_neg hne, if_pos hd]
    exact (digits_reads hds hdigit).bind_some hread

/-- A number starts with a sign or a digit. -/
theorem exists_cons_of_numberLiteral {bs : List UInt8} (h : NumberLiteral bs) :
    ∃ x tail, bs = x :: tail ∧ (x = Byte.minus ∨ Byte.isDigit x = true) := by
  obtain ⟨hsign, hwhole, _, _⟩ := h
  simp only [List.mem_cons, List.not_mem_nil, or_false] at hsign
  rcases hsign with rfl | rfl
  · cases hwhole with
    | zero => exact ⟨_, _, rfl, .inr (by decide)⟩
    | digits hd _ _ => exact ⟨_, _, rfl, .inr hd⟩
  · exact ⟨_, _, rfl, .inl rfl⟩

/-- The whole part of a number does not start with a sign. -/
theorem head?_ne_minus {whole : List UInt8} (h : WholePart whole) (rest : List UInt8) :
    (whole ++ rest).head? ≠ some Byte.minus := by
  intro hminus
  cases h with
  | zero => exact absurd (Option.some.inj hminus) (by decide)
  | digits hd _ _ =>
    rw [Option.some.inj hminus] at hd
    exact absurd hd (by decide)

theorem number_settles {bs : List UInt8} (h : NumberLiteral bs) : Settles number bs := by
  obtain @⟨sign, whole, fraction, exponent, hsign, hwhole, hfraction, hexponent⟩ := h
  unfold number
  simp only [List.mem_cons, List.not_mem_nil, or_false] at hsign
  rcases hsign with rfl | rfl
  · obtain ⟨a, ha⟩ := unsigned_settles false hwhole hfraction hexponent
    refine ⟨a, fun rest hrest => Reads.peek ?_⟩
    have hread := ha rest hrest
    rw [List.append_assoc] at hread
    rw [List.nil_append, List.append_assoc, if_neg (head?_ne_minus hwhole _)]
    exact hread
  · obtain ⟨a, ha⟩ := unsigned_settles true hwhole hfraction hexponent
    refine ⟨a, fun rest hrest => Reads.peek ?_⟩
    dsimp only [List.cons_append, List.nil_append, List.head?_cons]
    rw [if_pos rfl]
    exact Reads.eat (ha rest hrest)

/-- A number is read as its value. -/
theorem number_reads {bs : List UInt8} (h : NumberLiteral bs) {rest : List UInt8}
    (hrest : EndsNumber rest) : Reads number (bs ++ rest) (numberOfLiteral? bs) rest := by
  obtain ⟨a, ha⟩ := number_settles h
  suffices hvalue : numberOfLiteral? bs = a by
    rw [hvalue]
    exact ha rest hrest
  have hrun := ha [] nofun (Cursor.start bs) (List.append_nil bs).symm
  unfold numberOfLiteral?
  cases a with
  | none =>
    obtain ⟨e, he⟩ := hrun
    rw [he]
  | some n =>
    obtain ⟨⟨index, rest⟩, hn, rfl⟩ := hrun
    rw [hn]

/-! ## Numbers passed over -/

theorem skipExponent_reads {bs rest : List UInt8} (h : ExponentPart bs) (hrest : EndsNumber rest) :
    Reads skipExponent (bs ++ rest) (some ()) rest := by
  unfold skipExponent
  cases h with
  | absent =>
    refine Reads.peek ?_
    rw [List.nil_append]
    cases hhead : rest.head? with
    | none => exact .pure () rest
    | some b =>
      dsimp only
      rw [hrest.not_isExponentMark hhead]
      exact .pure () rest
  | @digits mark sign d ds hmark hsign h =>
    have hd : Byte.isDigit d = true := h d List.mem_cons_self
    have hds : Digits ds := fun b hb => h b (List.mem_cons_of_mem d hb)
    obtain ⟨down, hdown⟩ := exponentSign_reads hsign hd
    refine Reads.peek ?_
    dsimp only [List.cons_append, List.head?_cons]
    rw [hmark, if_pos rfl, List.append_assoc]
    refine Reads.eat ?_
    unfold skipExponentRest
    refine (hdown _).bind_some (Reads.peek (Reads.eat ?_))
    rw [if_pos hd]
    exact (digits_reads hds fun _ => hrest.not_isDigit).map fun _ => ()

theorem skipFraction_reads {fraction exponent rest : List UInt8}
    (hfraction : FractionPart fraction) (hexponent : ExponentPart exponent)
    (hrest : EndsNumber rest) :
    Reads skipFraction (fraction ++ (exponent ++ rest)) (some ()) rest := by
  unfold skipFraction
  cases hfraction with
  | absent =>
    refine Reads.peek ?_
    have hfirst : ([] ++ (exponent ++ rest)).head? ≠ some Byte.point := by
      cases hexponent with
      | absent => exact fun h => hrest.ne_point h rfl
      | digits hmark _ _ => exact fun h => ne_point_of_isExponentMark hmark (Option.some.inj h)
    rw [if_neg hfirst]
    exact skipExponent_reads hexponent hrest
  | digits hds =>
    refine Reads.peek ?_
    dsimp only [List.cons_append, List.head?_cons]
    rw [if_pos rfl]
    refine Reads.eat ?_
    refine (digits_reads hds (not_isDigit_of_exponentPart hexponent hrest)).bind_some ?_
    exact skipExponent_reads hexponent hrest

theorem skipUnsigned_reads {whole fraction exponent rest : List UInt8} (hwhole : WholePart whole)
    (hfraction : FractionPart fraction) (hexponent : ExponentPart exponent)
    (hrest : EndsNumber rest) :
    Reads skipUnsigned (whole ++ (fraction ++ (exponent ++ rest))) (some ()) rest := by
  have hdigit := not_isDigit_of_fractionPart hfraction hexponent hrest
  have hread := skipFraction_reads hfraction hexponent hrest
  unfold skipUnsigned
  cases hwhole with
  | zero =>
    rw [List.cons_append, List.nil_append]
    refine Reads.peek (Reads.eat ?_)
    rw [if_pos rfl]
    refine Reads.peek ?_
    cases hhead : (fraction ++ (exponent ++ rest)).head? with
    | none => exact hread
    | some b =>
      dsimp only
      rw [hdigit b hhead]
      exact hread
  | digits hd hne hds =>
    refine Reads.peek (Reads.eat ?_)
    rw [if_neg hne, if_pos hd]
    exact (digits_reads hds hdigit).bind_some hread

theorem skipNumber_reads {bs rest : List UInt8} (h : NumberLiteral bs) (hrest : EndsNumber rest) :
    Reads skipNumber (bs ++ rest) (some ()) rest := by
  obtain @⟨sign, whole, fraction, exponent, hsign, hwhole, hfraction, hexponent⟩ := h
  have hread := skipUnsigned_reads hwhole hfraction hexponent hrest
  unfold skipNumber
  rw [List.append_assoc, List.append_assoc, List.append_assoc]
  simp only [List.mem_cons, List.not_mem_nil, or_false] at hsign
  rcases hsign with rfl | rfl
  · refine Reads.peek ?_
    rw [List.nil_append, if_neg (head?_ne_minus hwhole _)]
    exact hread
  · refine Reads.peek ?_
    dsimp only [List.cons_append, List.nil_append, List.head?_cons]
    rw [if_pos rfl]
    exact Reads.eat hread

end SchemaToGo.Json.Reader
