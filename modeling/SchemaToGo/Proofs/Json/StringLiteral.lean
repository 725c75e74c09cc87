import SchemaToGo.Proofs.Json.Reads
set_option autoImplicit false

/-!
# How string literals are read

A string literal ends with its quote, and what is read from it does not depend on what stands after
it.  So it has one value, whatever text it is in.
-/

namespace SchemaToGo.Json

open Reader

/-- Characters are a run of plain bytes, and then nothing or an escape. -/
theorem Characters.exists_run {bs : List UInt8} (h : Characters bs) :
    ∃ plain tail, bs = plain ++ tail ∧ (∀ x ∈ plain, isPlain x = true) ∧ Characters tail ∧
      (tail = [] ∨ ∃ more, tail = Byte.backslash :: more) := by
  induction h with
  | nil => exact ⟨[], [], rfl, nofun, .nil, .inl rfl⟩
  | @plain b bs hb _ ih =>
    obtain ⟨plain, tail, rfl, hplain, htail, hstart⟩ := ih
    refine ⟨b :: plain, tail, rfl, fun x hx => ?_, htail, hstart⟩
    rcases List.mem_cons.mp hx with rfl | hx
    · exact hb
    · exact hplain x hx
  | short hb h _ => exact ⟨[], _, rfl, nofun, .short hb h, .inr ⟨_, rfl⟩⟩
  | hex ha hb hc hd h _ => exact ⟨[], _, rfl, nofun, .hex ha hb hc hd h, .inr ⟨_, rfl⟩⟩

namespace Reader

theorem hexQuad_reads {a b c d : UInt8} (ha : IsHex a) (hb : IsHex b) (hc : IsHex c)
    (hd : IsHex d) : ∃ n, ∀ rest, Reads hexQuad (a :: b :: c :: d :: rest) (some n) rest := by
  obtain ⟨a', ha⟩ := Option.isSome_iff_exists.mp ha
  obtain ⟨b', hb⟩ := Option.isSome_iff_exists.mp hb
  obtain ⟨c', hc⟩ := Option.isSome_iff_exists.mp hc
  obtain ⟨d', hd⟩ := Option.isSome_iff_exists.mp hd
  refine ⟨((a' * 16 + b') * 16 + c') * 16 + d', fun rest => ?_⟩
  unfold hexQuad
  refine Reads.get fun cursor hcursor => ?_
  rw [hcursor]
  refine Reads.set ?_
  rw [Cursor.drop, hcursor, ha, hb, hc, hd]
  exact .pure _ rest

theorem surrogateJoint_reads (x : UInt8) (bs : List UInt8) :
    Reads (surrogateJoint x) (x :: bs) (some ()) bs := by
  unfold surrogateJoint
  refine Reads.peek (Reads.eat ?_)
  rw [if_pos rfl]
  exact .pure () bs

theorem surrogateJoint_fails {x y : UInt8} (h : y ≠ x) (bs : List UInt8) :
    Reads (surrogateJoint x) (y :: bs) none [] := by
  unfold surrogateJoint
  refine Reads.peek (Reads.eat ?_)
  rw [if_neg h]
  exact .failHere _

/-- A hexadecimal escape may take the escape after it along, and then leaves characters behind. -/
theorem hexEscape_reads {a b c d : UInt8} (ha : IsHex a) (hb : IsHex b) (hc : IsHex c)
    (hd : IsHex d) {bs : List UInt8} (h : Characters bs) :
    ∃ n left, Characters left ∧ left.length ≤ bs.length ∧ ∀ after,
      Reads hexEscape (a :: b :: c :: d :: (bs ++ Byte.quote :: after)) n
        (left ++ Byte.quote :: after) := by
  obtain ⟨n, hn⟩ := hexQuad_reads ha hb hc hd
  unfold hexEscape
  by_cases htrailing : 0xDC00 ≤ n ∧ n ≤ 0xDFFF
  · refine ⟨none, bs, h, Nat.le_refl _, fun after => (hn _).bind_some ?_⟩
    rw [if_pos htrailing]
    exact .failHere _
  by_cases hsingle : n < 0xD800 ∨ 0xDBFF < n
  · refine ⟨some n, bs, h, Nat.le_refl _, fun after => (hn _).bind_some ?_⟩
    rw [if_neg htrailing, if_pos hsingle]
    exact .pure n _
  -- A leading surrogate needs another hexadecimal escape right after it.
  cases h with
  | nil =>
    refine ⟨none, [], .nil, Nat.le_refl _, fun after => (hn _).bind_some ?_⟩
    rw [if_neg htrailing, if_neg hsingle]
    exact (surrogateJoint_fails (by decide) _).bind_none
  | @plain x bs hx h =>
    refine ⟨none, [], .nil, Nat.zero_le _, fun after => (hn _).bind_some ?_⟩
    rw [if_neg htrailing, if_neg hsingle]
    exact (surrogateJoint_fails (by rintro rfl; exact absurd hx (by decide)) _).bind_none
  | @short x bs hx h =>
    refine ⟨none, [], .nil, Nat.zero_le _, fun after => (hn _).bind_some ?_⟩
    rw [if_neg htrailing, if_neg hsingle]
    refine (surrogateJoint_reads _ _).bind_some ?_
    exact (surrogateJoint_fails (by rintro rfl; exact absurd hx (by decide)) _).bind_none
  | @hex a' b' c' d' bs ha' hb' hc' hd' h =>
    obtain ⟨low, hlow⟩ := hexQuad_reads ha' hb' hc' hd'
    by_cases hrange : low < 0xDC00 ∨ 0xDFFF < low
    · refine ⟨none, [], .nil, Nat.zero_le _, fun after => (hn _).bind_some ?_⟩
      rw [if_neg htrailing, if_neg hsingle]
      refine (surrogateJoint_reads _ _).bind_some ((surrogateJoint_reads _ _).bind_some ?_)
      refine (hlow _).bind_some ?_
      rw [if_pos hrange]
      exact .failHere _
    · refine ⟨some ((n - 0xD800) * 0x400 + (low - 0xDC00) + 0x10000), bs, h,
        by simp only [List.length_cons]; omega, fun after => (hn _).bind_some ?_⟩
      rw [if_neg htrailing, if_neg hsingle]
      refine (surrogateJoint_reads _ _).bind_some ((surrogateJoint_reads _ _).bind_some ?_)
      refine (hlow _).bind_some ?_
      rw [if_neg hrange]
      exact .pure _ _

theorem escape_reads {bs : List UInt8} (h : Characters (Byte.backslash :: bs)) :
    ∃ decoded left, Characters left ∧ left.length < bs.length ∧ ∀ after,
      Reads escape (bs ++ Byte.quote :: after) decoded (left ++ Byte.quote :: after) := by
  unfold escape
  cases h with
  | plain hb _ => exact absurd hb (by decide)
  | @short x bs hx h =>
    obtain ⟨decoded, hdecoded⟩ := Option.isSome_iff_exists.mp hx
    refine ⟨some [decoded], bs, h, Nat.lt_succ_self _, fun after => ?_⟩
    refine Reads.peek (Reads.eat ?_)
    rw [hdecoded]
    exact .pure _ _
  | hex ha hb hc hd h =>
    obtain ⟨n, left, hleft, hlength, hn⟩ := hexEscape_reads ha hb hc hd h
    refine ⟨n.map fun n => String.utf8EncodeChar (Char.ofNat n), left, hleft,
      by simp only [List.length_cons]; omega, fun after => ?_⟩
    refine Reads.peek (Reads.eat ?_)
    rw [show shortEscape? (Byte.ofChar 'u') = none by decide]
    exact (hn after).map fun n => String.utf8EncodeChar (Char.ofNat n)

/-- What stands between quotes is decoded to the same bytes, or to none, whatever follows. -/
theorem stringBytes_reads {bs : List UInt8} (h : Characters bs) :
    ∃ decoded, ∀ bound, bs.length < bound → ∀ after,
      Reads (stringBytes bound) (bs ++ Byte.quote :: after) decoded after := by
  generalize hn : bs.length = n
  induction n using Nat.strongRecOn generalizing bs with
  | ind n ih =>
    obtain ⟨plain, tail, rfl, hplain, htail, hstart⟩ := h.exists_run
    have hrun : ∀ after, Reads (takeWhile isPlain) (plain ++ tail ++ Byte.quote :: after)
        (some plain) (tail ++ Byte.quote :: after) := by
      intro after
      rw [List.append_assoc]
      refine Reads.takeWhile hplain fun x hx => ?_
      rcases hstart with rfl | ⟨more, rfl⟩
      · exact Option.some.inj hx ▸ rfl
      · exact Option.some.inj hx ▸ rfl
    rcases hstart with rfl | ⟨more, rfl⟩
    · refine ⟨some plain, fun bound hbound after => ?_⟩
      obtain ⟨bound, rfl⟩ := Nat.exists_eq_add_one_of_ne_zero (Nat.ne_zero_of_lt hbound)
      unfold stringBytes
      refine (hrun after).bind_some (Reads.peek (Reads.eat ?_))
      rw [if_pos rfl]
      exact .pure _ _
    · obtain ⟨decoded, left, hleft, hlength, hescape⟩ := escape_reads htail
      simp only [List.length_append, List.length_cons] at hn
      obtain ⟨others, hothers⟩ := ih left.length (by omega) hleft rfl
      refine ⟨decoded.bind fun e => others.map fun m => plain ++ e ++ m,
        fun bound hbound after => ?_⟩
      obtain ⟨bound, rfl⟩ := Nat.exists_eq_add_one_of_ne_zero (Nat.ne_zero_of_lt hbound)
      unfold stringBytes
      refine (hrun after).bind_some (Reads.peek (Reads.eat ?_))
      rw [if_neg (by decide), if_pos rfl]
      refine (hescape after).bind fun e _ => ?_
      exact (hothers bound (by omega) after).map fun m => plain ++ e ++ m

/-- A string literal is read as its value. -/
theorem stringRest_reads {bs : List UInt8} (h : Characters bs) {bound : Nat}
    (hbound : bs.length < bound) (after : List UInt8) :
    Reads (stringRest bound) (bs ++ Byte.quote :: after)
      (decodeLiteral? (quoted bs)) after := by
  obtain ⟨decoded, hdecoded⟩ := stringBytes_reads h
  have hrest : ∀ bound, bs.length < bound → ∀ after,
      Reads (stringRest bound) (bs ++ Byte.quote :: after) (decoded.bind Utf8.decode?) after := by
    intro bound hbound after
    unfold stringRest
    refine (hdecoded bound hbound after).bind fun bytes _ => ?_
    cases Utf8.decode? bytes with
    | none => exact .failHere _
    | some s => exact .pure s _
  suffices hvalue : decodeLiteral? (quoted bs) = decoded.bind Utf8.decode? by
    rw [hvalue]
    exact hrest bound hbound after
  have hlength : bs.length < (Byte.quote :: (bs ++ [Byte.quote])).length := by
    simp only [List.length_cons, List.length_append]
    omega
  have hrun := hrest _ hlength [] ⟨1, bs ++ [Byte.quote]⟩ rfl
  unfold decodeLiteral? quoted
  dsimp only
  rw [if_pos rfl]
  cases htext : decoded.bind Utf8.decode? with
  | none =>
    rw [htext] at hrun
    obtain ⟨e, he⟩ := hrun
    rw [he]
  | some s =>
    rw [htext] at hrun
    obtain ⟨⟨index, rest⟩, hs, rfl⟩ := hrun
    rw [hs]

/-! ## Passed over -/

theorem skipEscape_reads {bs : List UInt8} (h : Characters (Byte.backslash :: bs)) :
    ∃ left, Characters left ∧ left.length < bs.length ∧ ∀ after,
      Reads skipEscape (bs ++ Byte.quote :: after) (some ()) (left ++ Byte.quote :: after) := by
  unfold skipEscape
  cases h with
  | plain hb _ => exact absurd hb (by decide)
  | @short x bs hx h =>
    refine ⟨bs, h, Nat.lt_succ_self _, fun after => Reads.peek (Reads.eat ?_)⟩
    rw [if_pos hx]
    exact .pure _ _
  | @hex a b c d bs ha hb hc hd h =>
    obtain ⟨n, hn⟩ := hexQuad_reads ha hb hc hd
    refine ⟨bs, h, by simp only [List.length_cons]; omega, fun after => Reads.peek (Reads.eat ?_)⟩
    rw [if_neg (by decide), if_pos rfl]
    exact (hn _).map fun _ => ()

theorem skipStringRest_reads {bs : List UInt8} (h : Characters bs) {bound : Nat}
    (hbound : bs.length < bound) (after : List UInt8) :
    Reads (skipStringRest bound) (bs ++ Byte.quote :: after) (some ()) after := by
  induction bound generalizing bs with
  | zero => exact absurd hbound (Nat.not_lt_zero _)
  | succ bound ih =>
    obtain ⟨plain, tail, rfl, hplain, htail, hstart⟩ := h.exists_run
    unfold skipStringRest
    rw [List.append_assoc]
    rcases hstart with rfl | ⟨more, rfl⟩
    · refine (Reads.takeWhile hplain fun x hx => ?_).bind_some (Reads.peek ?_)
      · exact Option.some.inj hx ▸ rfl
      · exact .eat_last _ _
    · obtain ⟨left, hleft, hlength, hescape⟩ := skipEscape_reads htail
      simp only [List.length_append, List.length_cons] at hbound
      refine (Reads.takeWhile hplain fun x hx => ?_).bind_some (Reads.peek ?_)
      · exact Option.some.inj hx ▸ rfl
      · refine Reads.eat ((hescape after).bind_some ?_)
        exact ih hleft (by omega)

end Reader

end SchemaToGo.Json
