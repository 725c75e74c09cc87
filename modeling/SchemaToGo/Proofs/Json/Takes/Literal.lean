import SchemaToGo.Proofs.Json.Takes
set_option autoImplicit false

/-!
# Literals that readers take

What is taken for the rest of a string or for a number is one, whatever it stands for and whatever
follows it.
-/

namespace SchemaToGo.Json

open Reader

/-- A digit before digits. -/
theorem Digits.cons {d : UInt8} {ds : List UInt8} (hd : Byte.isDigit d = true) (h : Digits ds) :
    Digits (d :: ds) := List.forall_mem_cons.mpr ⟨hd, h⟩

/-! ## String literals -/

/-- Plain bytes may stand before characters. -/
theorem Characters.plain_append {plain bs : List UInt8} (h : ∀ b ∈ plain, isPlain b = true)
    (hbs : Characters bs) : Characters (plain ++ bs) := by
  induction plain with
  | nil => exact hbs
  | cons b plain ih =>
    exact .plain (h b List.mem_cons_self) (ih fun x hx => h x (List.mem_cons_of_mem b hx))

/-- What is taken goes on with an escape that starts with `front`, up to where characters may
follow. -/
def EndsEscape (front taken : List UInt8) : Prop :=
  ∀ more, Characters more → Characters (front ++ (taken ++ more))

namespace Reader

theorem hexQuad_takes (i : Nat) (bs : List UInt8) :
    Takes hexQuad ⟨i, bs⟩ (EndsEscape [Byte.backslash, Byte.ofChar 'u']) := by
  unfold hexQuad
  refine .get ?_
  match bs with
  | [] => exact .set [] [] (.failHere _)
  | [a] => exact .set [a] [] (.failHere _)
  | [a, b] => exact .set [a, b] [] (.failHere _)
  | [a, b, d] => exact .set [a, b, d] [] (.failHere _)
  | a :: b :: d :: e :: rest =>
    refine .set [a, b, d, e] rest ?_
    split
    · next ha hb hd he =>
      refine .pure _ fun more hmore => ?_
      exact .hex (Option.isSome_of_mem ha) (Option.isSome_of_mem hb) (Option.isSome_of_mem hd)
        (Option.isSome_of_mem he) hmore
    · exact .failHere _

theorem surrogateJoint_takes (x : UInt8) (i : Nat) (bs : List UInt8) :
    Takes (surrogateJoint x) ⟨i, bs⟩ (· = [x]) := by
  unfold surrogateJoint
  refine .peek (.failHere _) fun y rest _ => .eat ?_
  by_cases hy : y = x
  · rw [if_pos hy]
    exact .pure () (by rw [hy])
  · rw [if_neg hy]
    exact .failHere _

theorem hexEscape_takes (i : Nat) (bs : List UInt8) :
    Takes hexEscape ⟨i, bs⟩ (EndsEscape [Byte.backslash, Byte.ofChar 'u']) := by
  unfold hexEscape
  refine (hexQuad_takes i bs).bind fun n quad rest _ hquad => ?_
  split
  · exact .failHere _
  split
  · exact .pure _ (by rw [List.append_nil]; exact hquad)
  refine (surrogateJoint_takes _ _ _).bind fun _ _ _ _ hfirst => ?_
  refine (surrogateJoint_takes _ _ _).bind fun _ _ _ _ hsecond => ?_
  refine (hexQuad_takes _ _).bind fun low quad' _ _ hquad' => ?_
  split
  · exact .failHere _
  · refine .pure _ fun more hmore => ?_
    rw [hfirst, hsecond, List.append_nil, List.append_assoc, List.append_assoc, List.append_assoc]
    exact hquad _ (hquad' more hmore)

theorem escape_takes (i : Nat) (bs : List UInt8) :
    Takes escape ⟨i, bs⟩ (EndsEscape [Byte.backslash]) := by
  unfold escape
  refine .peek (.failHere _) fun b rest _ => .eat ?_
  cases hb : shortEscape? b with
  | some decoded => exact .pure _ fun more hmore => .short (Option.isSome_of_mem hb) hmore
  | none =>
    dsimp only
    by_cases hu : b = Byte.ofChar 'u'
    · rw [if_pos hu, hu]
      exact ((hexEscape_takes _ _).mono fun _ htaken more hmore => htaken more hmore).map _
    · rw [if_neg hu]
      exact .failHere _

/-- Characters and the closing quote after them. -/
def EndsString (taken : List UInt8) : Prop := ∃ bs, Characters bs ∧ taken = bs ++ [Byte.quote]

/-- A string may go on with plain bytes and an escape. -/
theorem EndsString.escape {plain escaped more : List UInt8} (h : ∀ b ∈ plain, isPlain b = true)
    (hescaped : EndsEscape [Byte.backslash] escaped) (hmore : EndsString more) :
    EndsString (plain ++ Byte.backslash :: (escaped ++ more)) := by
  obtain ⟨bs, hbs, rfl⟩ := hmore
  refine ⟨plain ++ Byte.backslash :: (escaped ++ bs), .plain_append h (hescaped bs hbs), ?_⟩
  simp only [List.append_assoc, List.cons_append]

theorem stringBytes_takes (bound i : Nat) (bs : List UInt8) :
    Takes (stringBytes bound) ⟨i, bs⟩ EndsString := by
  induction bound generalizing i bs with
  | zero => exact .failHere _
  | succ bound ih =>
    unfold stringBytes
    refine .takeWhile isPlain fun plain rest _ hplain => ?_
    refine .peek (.failHere _) fun b rest _ => .eat ?_
    by_cases hquote : b = Byte.quote
    · rw [if_pos hquote, hquote]
      exact .pure _ ⟨plain, .of_plain hplain, rfl⟩
    by_cases hslash : b = Byte.backslash
    · rw [if_neg hquote, if_pos hslash, hslash]
      refine (escape_takes _ _).bind fun _ escaped _ _ hescaped => ?_
      exact ((ih _ _).mono fun more hmore => .escape hplain hescaped hmore).map _
    · rw [if_neg hquote, if_neg hslash]
      exact .failHere _

theorem stringRest_takes (bound i : Nat) (bs : List UInt8) :
    Takes (stringRest bound) ⟨i, bs⟩ EndsString := by
  unfold stringRest
  refine (stringBytes_takes bound i bs).bind fun bytes taken _ _ htaken => ?_
  cases Utf8.decode? bytes with
  | none => exact .failHere _
  | some s => exact .pure s (by rw [List.append_nil]; exact htaken)

theorem skipEscape_takes (i : Nat) (bs : List UInt8) :
    Takes skipEscape ⟨i, bs⟩ (EndsEscape [Byte.backslash]) := by
  unfold skipEscape
  refine .peek (.failHere _) fun b rest _ => .eat ?_
  by_cases hb : (shortEscape? b).isSome = true
  · rw [if_pos hb]
    exact .pure _ fun more hmore => .short hb hmore
  by_cases hu : b = Byte.ofChar 'u'
  · rw [if_neg hb, if_pos hu, hu]
    exact ((hexQuad_takes _ _).mono fun _ htaken more hmore => htaken more hmore).map _
  · rw [if_neg hb, if_neg hu]
    exact .failHere _

theorem skipStringRest_takes (bound i : Nat) (bs : List UInt8) :
    Takes (skipStringRest bound) ⟨i, bs⟩ EndsString := by
  induction bound generalizing i bs with
  | zero => exact .failHere _
  | succ bound ih =>
    unfold skipStringRest
    refine .takeWhile isPlain fun plain rest _ hplain => ?_
    refine .peek (.failHere _) fun b rest _ => ?_
    dsimp only
    by_cases hquote : b = Byte.quote
    · rw [if_pos hquote, hquote]
      exact .eat_last ⟨plain, .of_plain hplain, rfl⟩
    by_cases hslash : b = Byte.backslash
    · rw [if_neg hquote, if_pos hslash, hslash]
      refine .eat ((skipEscape_takes _ _).bind fun _ escaped _ _ hescaped => ?_)
      exact (ih _ _).mono fun more hmore => .escape hplain hescaped hmore
    · rw [if_neg hquote, if_neg hslash]
      exact .failHere _

/-! ## Numbers -/

theorem Takes.digits {β : Type} {next : List Nat → Reader β} {i : Nat} {bs : List UInt8}
    {Q : List UInt8 → Prop}
    (h : ∀ ds rest, Digits ds →
      Takes (next (ds.map Byte.digitValue)) ⟨i + ds.length, rest⟩ fun more => Q (ds ++ more)) :
    Takes (digits >>= next) ⟨i, bs⟩ Q :=
  Takes.takeWhile Byte.isDigit (k := fun ds => next (ds.map Byte.digitValue))
    fun ds rest _ hds => h ds rest hds

theorem floating_takes (negative : Bool) (significand : Nat) (exponent : Int) (c : Cursor) :
    Takes (floating negative significand exponent) c (· = []) := by
  unfold floating
  cases Decimal.Binary64.ofDecimal? significand exponent with
  | none => exact .failHere _
  | some x => exact .pure _ rfl

theorem whole_takes (negative : Bool) (n : Nat) (c : Cursor) :
    Takes (whole negative n) c (· = []) := by
  unfold whole
  split
  · exact .pure _ rfl
  · split
    · exact .pure _ rfl
    · exact .pure _ rfl

theorem exponentSign_takes (i : Nat) (bs : List UInt8) :
    Takes exponentSign ⟨i, bs⟩ (· ∈ [[], [Byte.plus], [Byte.minus]]) := by
  unfold exponentSign
  refine .peek (.pure _ (by decide)) fun b rest _ => ?_
  dsimp only
  by_cases hplus : b = Byte.plus
  · rw [if_pos hplus, hplus]
    exact .eat (.pure _ (by decide))
  by_cases hminus : b = Byte.minus
  · rw [if_neg hplus, if_pos hminus, hminus]
    exact .eat (.pure _ (by decide))
  · rw [if_neg hplus, if_neg hminus]
    exact .pure _ (by decide)

/-- An exponent that is out of bounds is so after one of its digits. -/
theorem le_of_exponentOf_eq_error {n : Nat} {ds : List Nat} {k : Nat}
    (h : exponentOf n ds = .error k) : k ≤ ds.length := by
  induction ds generalizing n k with
  | nil => cases h
  | cons d ds ih =>
    rw [exponentOf] at h
    split at h
    · cases hmore : exponentOf (n * 10 + d) ds with
      | ok e => rw [hmore] at h; cases h
      | error k' =>
        rw [hmore] at h
        cases h
        exact Nat.succ_le_succ (ih hmore)
    · cases h
      exact Nat.succ_le_succ (Nat.zero_le _)

/-- A sign, if there is one, and digits. -/
def EndsExponent (taken : List UInt8) : Prop :=
  ∃ sign d ds, sign ∈ [[], [Byte.plus], [Byte.minus]] ∧ Digits (d :: ds) ∧ taken = sign ++ d :: ds

theorem EndsExponent.exponentPart {mark : UInt8} (hmark : isExponentMark mark = true)
    {taken : List UInt8} (h : EndsExponent taken) : ExponentPart (mark :: taken) := by
  obtain ⟨sign, d, ds, hsign, hdigits, rfl⟩ := h
  exact .digits hmark hsign hdigits

theorem exponentRest_takes (negative : Bool) (significand : Nat) (exponent : Int) (i : Nat)
    (bs : List UInt8) :
    Takes (exponentRest negative significand exponent) ⟨i, bs⟩ EndsExponent := by
  unfold exponentRest
  refine (exponentSign_takes i bs).bind fun down sign rest _ hsign => ?_
  refine .peek (.failHere _) fun d rest _ => .eat ?_
  dsimp only
  split
  · exact .failHere _
  next hd =>
  rw [Bool.not_eq_false] at hd
  refine .get ?_
  refine .digits fun ds rest hds => ?_
  have hends : EndsExponent (sign ++ d :: (ds ++ [])) :=
    ⟨sign, d, ds, hsign, .cons hd hds, by rw [List.append_nil]⟩
  cases hvalue : exponentOf (Byte.digitValue d) (ds.map Byte.digitValue) with
  | ok e => exact (floating_takes _ _ _ _).mono fun more hmore => by rw [hmore]; exact hends
  | error k =>
    have hk := le_of_exponentOf_eq_error hvalue
    rw [List.length_map] at hk
    dsimp only
    split
    · -- Reading goes back to the digit that is one too many.
      refine Nat.le_trans (Nat.add_le_add_left hk _) ?_
      exact Nat.le_add_right _ _
    · exact .pure _ hends

theorem afterDigits_takes (negative : Bool) (significand : Nat) (exponent : Int) (i : Nat)
    (bs : List UInt8) :
    Takes (afterDigits negative significand exponent) ⟨i, bs⟩ ExponentPart := by
  have hfloating : ∀ c, Takes (floating negative significand exponent) c ExponentPart := fun c =>
    (floating_takes _ _ _ c).mono fun _ htaken => htaken ▸ .absent
  unfold afterDigits
  refine .peek (hfloating _) fun b rest _ => ?_
  dsimp only
  split
  · next hmark =>
    exact .eat ((exponentRest_takes _ _ _ _ _).mono fun _ htaken => htaken.exponentPart hmark)
  · exact hfloating _

/-- A fraction and an exponent, if they are there. -/
def EndsWhole (taken : List UInt8) : Prop :=
  ∃ fraction exponent, FractionPart fraction ∧ ExponentPart exponent ∧
    taken = fraction ++ exponent

theorem EndsWhole.of_exponentPart {taken : List UInt8} (h : ExponentPart taken) :
    EndsWhole taken := ⟨[], taken, .absent, h, rfl⟩

theorem EndsWhole.of_digits {d : UInt8} {ds exponent : List UInt8} (hds : Digits (d :: ds))
    (h : ExponentPart exponent) : EndsWhole (Byte.point :: (d :: ds ++ exponent)) :=
  ⟨Byte.point :: d :: ds, exponent, .digits hds, h, rfl⟩

theorem fractionRest_takes (negative : Bool) (significand : Nat) (exponent : Int) (i : Nat)
    (bs : List UInt8) :
    Takes (fractionRest negative significand exponent) ⟨i, bs⟩
      fun taken => EndsWhole (Byte.point :: taken) := by
  unfold fractionRest
  refine .digits fun ds rest hds => ?_
  cases ds with
  | nil => exact .peek (.failNext _) fun _ _ _ => .failNext _
  | cons d ds =>
    exact (afterDigits_takes _ _ _ _ _).mono fun exponent hexponent => .of_digits hds hexponent

theorem afterWhole_takes (negative : Bool) (significand dropped i : Nat) (bs : List UInt8) :
    Takes (afterWhole negative significand dropped) ⟨i, bs⟩ EndsWhole := by
  have hnone : ∀ taken : List UInt8, taken = [] → EndsWhole taken := fun taken htaken =>
    htaken ▸ .of_exponentPart .absent
  unfold afterWhole
  refine .peek ?_ fun b rest _ => ?_
  · dsimp only
    split
    · exact (floating_takes _ _ _ _).mono hnone
    · exact (whole_takes _ _ _).mono hnone
  · dsimp only
    by_cases hpoint : b = Byte.point
    · rw [if_pos hpoint, hpoint]
      exact .eat (fractionRest_takes _ _ _ _ _)
    · rw [if_neg hpoint]
      split
      · exact (afterDigits_takes _ _ _ _ _).mono fun _ => .of_exponentPart
      · exact (whole_takes _ _ _).mono hnone

/-- A number without its sign. -/
def IsUnsigned (taken : List UInt8) : Prop :=
  ∃ whole more, WholePart whole ∧ EndsWhole more ∧ taken = whole ++ more

theorem IsUnsigned.numberLiteral {sign taken : List UInt8} (hsign : sign ∈ [[], [Byte.minus]])
    (h : IsUnsigned taken) : NumberLiteral (sign ++ taken) := by
  obtain ⟨whole, _, hwhole, ⟨fraction, exponent, hfraction, hexponent, rfl⟩, rfl⟩ := h
  exact .parts hsign hwhole hfraction hexponent

theorem unsigned_takes (negative : Bool) (i : Nat) (bs : List UInt8) :
    Takes (unsigned negative) ⟨i, bs⟩ IsUnsigned := by
  have hzero : ∀ i bs, Takes (afterWhole negative 0 0) ⟨i, bs⟩
      fun more => IsUnsigned (Byte.zero :: more) := fun i bs =>
    (afterWhole_takes _ _ _ i bs).mono fun more hmore => ⟨[Byte.zero], more, .zero, hmore, rfl⟩
  unfold unsigned
  refine .peek (.failHere _) fun b rest _ => .eat ?_
  dsimp only
  by_cases hb : b = Byte.zero
  · rw [if_pos hb, hb]
    refine .peek (hzero _ _) fun next rest _ => ?_
    dsimp only
    split
    · exact .failNext _
    · exact hzero _ _
  · rw [if_neg hb]
    split
    · next hd =>
      refine .digits fun ds rest hds => ?_
      exact (afterWhole_takes _ _ _ _ _).mono fun more hmore =>
        ⟨b :: ds, more, .digits hd hb hds, hmore, rfl⟩
    · exact .failHere _

theorem number_takes (i : Nat) (bs : List UInt8) : Takes number ⟨i, bs⟩ NumberLiteral := by
  unfold number
  refine .peek ?_ fun b rest _ => ?_
  · rw [if_neg nofun]
    exact (unsigned_takes _ _ _).mono fun _ h => h.numberLiteral (by decide : [] ∈ _)
  · by_cases hb : b = Byte.minus
    · rw [if_pos (congrArg some hb), hb]
      exact .eat ((unsigned_takes _ _ _).mono fun _ h =>
        h.numberLiteral (by decide : [Byte.minus] ∈ _))
    · rw [if_neg fun h => hb (Option.some.inj h)]
      exact (unsigned_takes _ _ _).mono fun _ h => h.numberLiteral (by decide : [] ∈ _)

/-! ## Numbers passed over -/

theorem skipExponentRest_takes (i : Nat) (bs : List UInt8) :
    Takes skipExponentRest ⟨i, bs⟩ EndsExponent := by
  unfold skipExponentRest
  refine (exponentSign_takes i bs).bind fun down sign rest _ hsign => ?_
  refine .peek (.failHere _) fun d rest _ => .eat ?_
  split
  · next hd =>
    refine .digits fun ds rest hds => ?_
    exact .pure _ ⟨sign, d, ds, hsign, .cons hd hds, by rw [List.append_nil]⟩
  · exact .failHere _

theorem skipExponent_takes (i : Nat) (bs : List UInt8) :
    Takes skipExponent ⟨i, bs⟩ ExponentPart := by
  unfold skipExponent
  refine .peek (.pure _ .absent) fun b rest _ => ?_
  dsimp only
  split
  · next hmark =>
    exact .eat ((skipExponentRest_takes _ _).mono fun _ htaken => htaken.exponentPart hmark)
  · exact .pure _ .absent

theorem skipFraction_takes (i : Nat) (bs : List UInt8) :
    Takes skipFraction ⟨i, bs⟩ EndsWhole := by
  have hexponent : ∀ i bs, Takes skipExponent ⟨i, bs⟩ EndsWhole := fun i bs =>
    (skipExponent_takes i bs).mono fun _ => .of_exponentPart
  unfold skipFraction
  refine .peek ?_ fun b rest _ => ?_
  · rw [if_neg nofun]
    exact hexponent _ _
  · by_cases hb : b = Byte.point
    · rw [if_pos (congrArg some hb), hb]
      refine .eat (.digits fun ds rest hds => ?_)
      cases ds with
      | nil => exact .failNext _
      | cons d ds =>
        exact (skipExponent_takes _ _).mono fun exponent hexponent => .of_digits hds hexponent
    · rw [if_neg fun h => hb (Option.some.inj h)]
      exact hexponent _ _

theorem skipUnsigned_takes (i : Nat) (bs : List UInt8) :
    Takes skipUnsigned ⟨i, bs⟩ IsUnsigned := by
  have hzero : ∀ i bs, Takes skipFraction ⟨i, bs⟩
      fun more => IsUnsigned (Byte.zero :: more) := fun i bs =>
    (skipFraction_takes i bs).mono fun more hmore => ⟨[Byte.zero], more, .zero, hmore, rfl⟩
  unfold skipUnsigned
  refine .peek (.failHere _) fun b rest _ => .eat ?_
  by_cases hb : b = Byte.zero
  · rw [if_pos hb, hb]
    refine .peek (hzero _ _) fun next rest _ => ?_
    dsimp only
    split
    · exact .failNext _
    · exact hzero _ _
  · rw [if_neg hb]
    split
    · next hd =>
      refine .digits fun ds rest hds => ?_
      exact (skipFraction_takes _ _).mono fun more hmore =>
        ⟨b :: ds, more, .digits hd hb hds, hmore, rfl⟩
    · exact .failHere _

theorem skipNumber_takes (i : Nat) (bs : List UInt8) : Takes skipNumber ⟨i, bs⟩ NumberLiteral := by
  unfold skipNumber
  refine .peek ?_ fun b rest _ => ?_
  · rw [if_neg nofun]
    exact (skipUnsigned_takes _ _).mono fun _ h => h.numberLiteral (by decide : [] ∈ _)
  · by_cases hb : b = Byte.minus
    · rw [if_pos (congrArg some hb), hb]
      exact .eat ((skipUnsigned_takes _ _).mono fun _ h =>
        h.numberLiteral (by decide : [Byte.minus] ∈ _))
    · rw [if_neg fun h => hb (Option.some.inj h)]
      exact (skipUnsigned_takes _ _).mono fun _ h => h.numberLiteral (by decide : [] ∈ _)

end Reader

end SchemaToGo.Json
