set_option autoImplicit false

/-!
# Bytes of a text

Texts are read and written as UTF-8.  Encoding goes character by character; decoding accepts
exactly the sequences that encode some text.
-/

namespace SchemaToGo.Utf8

/-- The UTF-8 bytes of a text. -/
def encode (s : String) : List UInt8 := s.toList.flatMap String.utf8EncodeChar

/-- The text that the bytes encode. -/
def decode? (bytes : List UInt8) : Option String := String.fromUTF8? bytes.toByteArray

/-- Decoding undoes encoding, and nothing else decodes to the same text. -/
theorem decode?_eq_some_iff {bytes : List UInt8} {s : String} :
    decode? bytes = some s ↔ bytes = encode s := by
  have key : bytes.toByteArray = s.toByteArray ↔ bytes = encode s := by
    have hs : s.toByteArray = (encode s).toByteArray := by
      conv => lhs; rw [← String.ofList_toList (s := s)]
      rfl
    rw [hs]
    constructor
    · intro h
      have h' := congrArg (fun b => b.data.toList) h
      simpa using h'
    · rintro rfl; rfl
  unfold decode? String.fromUTF8?
  split
  · next hv =>
    rw [Option.some.injEq, ← key]
    constructor
    · rintro rfl; rfl
    · intro h; exact String.toByteArray_inj.mp h
  · next hv =>
    simp only [reduceCtorEq, false_iff, ← key]
    intro h
    exact hv (h ▸ s.isValidUTF8)

end SchemaToGo.Utf8
