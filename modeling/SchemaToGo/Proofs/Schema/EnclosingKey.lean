import SchemaToGo.Proofs.Json.Member
import SchemaToGo.Proofs.Schema.Inside
import SchemaToGo.Proofs.Schema.Location
set_option autoImplicit false

/-!
# The keyword of a misfit

The keyword that a misfit is reported with is what the last colon before the place says that says
anything.  This is the name of the innermost member around the place, unless a colon between the
colon of this member and the place says something else: a member that is closed before the place,
or a colon at the start of a string: `parse_mismatch_keyword`.

SPEC_FULL.md section 7 asks for the nearest enclosing key.
-/

namespace SchemaToGo

open Json

namespace Json

namespace Member

/-- The text between the colon and a place in the value. -/
def sinceColon (m : Member) (doc : List UInt8) (offset : Nat) : List UInt8 :=
  (doc.take offset).drop (m.upToColon.length + 1)

theorem Innermost.take_eq {m : Member} {doc : List UInt8} {offset : Nat}
    (h : m.Innermost doc offset) :
    doc.take offset = m.upToColon ++ Byte.colon :: m.sinceColon doc offset := by
  obtain ⟨after, -, hdoc⟩ := h.mem
  have hdoc' : doc = (m.upToColon ++ [Byte.colon]) ++ (m.gap' ++ (m.value ++ after)) := by
    rw [hdoc]
    simp [upToValue]
  have hlength : (m.upToColon ++ [Byte.colon]).length ≤ offset := by
    have hle := h.contains.1
    simp only [upToValue, List.length_append, List.length_cons] at hle
    simp only [List.length_append, List.length_singleton]
    omega
  have htake : (doc.take offset).take (m.upToColon ++ [Byte.colon]).length =
      m.upToColon ++ [Byte.colon] := by
    rw [List.take_take, Nat.min_eq_left hlength, hdoc', List.take_left]
  have hsplit := List.take_append_drop (m.upToColon ++ [Byte.colon]).length (doc.take offset)
  rw [htake, List.append_assoc, List.length_append] at hsplit
  exact hsplit.symm

end Member

end Json

/-- A misfit is reported with the key that is found before its place. -/
theorem parse_mismatch_eq {document text detail : String} {l : Location} {keyword : Option String}
    (h : Schema.parse document text = .error (.mismatch l keyword detail)) :
    keyword = keyBefore? (Utf8.encode text) l.offset ∧ l.offset ≤ (Utf8.encode text).length := by
  obtain ⟨failure, hrun, -, hlocates⟩ := parse_error_locates h
  refine ⟨?_, hlocates.offset_le⟩
  unfold Schema.parse at h
  dsimp only at h
  rw [hrun] at h
  have he := Except.error.inj h
  unfold ParseError.ofFailure at he
  dsimp only at he
  split at he
  · cases he
  · cases he
    rfl

/-- The keyword of a misfit is what is said last before its place, in every JSON text that goes on
as the document does up to there.  If there is a keyword at all, it is the name of the innermost
member that contains the place exactly if this member has a name and no colon after its own one says
anything else last. -/
theorem parse_mismatch_keyword {document text detail : String} {l : Location}
    {keyword : Option String} {t : Tree} {tail : List UInt8}
    (h : Schema.parse document text = .error (.mismatch l keyword detail))
    (htext : IsText t ((Utf8.encode text).take (l.offset + 1) ++ tail)) :
    let doc := (Utf8.encode text).take (l.offset + 1) ++ tail
    (∀ k, keyword = some k ↔ LastSays [] (doc.take l.offset) k) ∧
    ((∀ k, keyword = some k → ∃ m : Member, m.Innermost doc l.offset ∧ m.name? = some k) ↔
      keyword = none ∨ ∃ (m : Member) (name : String), m.Innermost doc l.offset ∧
        m.name? = some name ∧
        ∀ w, LastSays (m.upToColon ++ [Byte.colon]) (m.sinceColon doc l.offset) w → w = name) := by
  intro doc
  obtain ⟨hkeyword, hoffset⟩ := parse_mismatch_eq h
  have htake : doc.take l.offset = (Utf8.encode text).take l.offset := by
    have hlength : l.offset ≤ ((Utf8.encode text).take (l.offset + 1)).length := by
      rw [List.length_take]
      omega
    rw [List.take_append_of_le_length hlength, List.take_take, Nat.min_eq_left (Nat.le_succ _)]
  have hsaid : ∀ k, keyword = some k ↔ LastSays [] (doc.take l.offset) k := by
    intro k
    rw [← keyBefore?_eq_some_iff htext, hkeyword]
    unfold keyBefore?
    rw [htake]
  refine ⟨hsaid, fun hright => ?_, ?_⟩
  · cases hk : keyword with
    | none => exact .inl rfl
    | some k =>
      obtain ⟨m, hm, hname⟩ := hright k hk
      refine .inr ⟨m, k, hm, hname, fun w hw => ?_⟩
      rw [lastSays_behind_colon] at hw
      have hlast : LastSays [] _ w := hw.of_append
      rw [← hm.take_eq, ← hsaid, hk] at hlast
      exact (Option.some.inj hlast).symm
  · rintro (hnone | ⟨m, name, hm, hname, hlater⟩) k hk
    · rw [hnone] at hk
      cases hk
    · have hlast := (hsaid k).mp hk
      rw [hm.take_eq] at hlast
      have hown := hm.mem.colonSays hname
      rcases LastColon.append_cases hown hlast with hk | hlast
      · exact ⟨m, hm, hname.trans (hown.keyAt?.symm.trans hk.keyAt?)⟩
      · rw [lastSays_behind_colon] at hlater
        exact ⟨m, hm, by rw [hname, hlater k hlast]⟩

/-- The keyword that an error names. -/
def ParseError.keyword? : ParseError → Option String
  | malformed _ _ => none
  | mismatch _ keyword _ => keyword

/-- The keyword that a failed parse is reported with. -/
def keywordOf (document text : String) : Option String :=
  match Schema.parse document text with
  | .ok _ => none
  | .error e => e.keyword?

theorem exists_mismatch_of_keywordOf {document text k : String}
    (h : keywordOf document text = some k) :
    ∃ l detail, Schema.parse document text = .error (.mismatch l (some k) detail) := by
  unfold keywordOf at h
  split at h
  · cases h
  · next e hparse =>
    cases e with
    | malformed => cases h
    | mismatch l keyword detail =>
      obtain rfl : keyword = some k := h
      exact ⟨l, detail, hparse⟩

theorem numberLiteral_five : NumberLiteral [0x35] :=
  @NumberLiteral.parts [] [0x35] [] [] (by decide) (.digits (by decide) (by decide) nofun) .absent
    .absent

/-- A number where a title is expected: the last colon before it says so. -/
theorem parse_mismatch_keyword_title : ∃ l detail,
    Schema.parse "schema.json" "\x7b\"title\": 5\x7d" = .error (.mismatch l (some "title") detail) ∧
      LastSays [] ((Utf8.encode "\x7b\"title\": 5\x7d").take l.offset) "title" := by
  obtain ⟨l, detail, hparse⟩ := exists_mismatch_of_keywordOf
    (by decide +kernel : keywordOf "schema.json" "\x7b\"title\": 5\x7d" = some "title")
  have hvalue : Utf8.encode "5" = [] ++ ([0x35] ++ []) := by decide +kernel
  have htext := Schema.isText_inMember .title (hvalue ▸ IsText.mk .nil (.number numberLiteral_five) .nil)
  have hwhole := List.take_append_drop (l.offset + 1) (Utf8.encode "\x7b\"title\": 5\x7d")
  have hlast := ((parse_mismatch_keyword hparse (hwhole.symm ▸ htext)).1 "title").mp rfl
  rw [hwhole] at hlast
  exact ⟨l, detail, hparse, hlast⟩

/-! ## A key that is none -/

/-- Without backslashes a quote stands at each end of a string and nowhere else. -/
theorem Json.Outside.count_quote_even {bs : List UInt8} (h : Outside bs)
    (hslash : Byte.backslash ∉ bs) : bs.count Byte.quote % 2 = 0 := by
  induction h with
  | nil => rfl
  | bare _ hb ih =>
    rw [List.mem_append, not_or] at hslash
    rw [List.count_append, List.count_singleton, if_neg (by simpa using hb.1)]
    exact ih hslash.1
  | @string bs letters _ hletters ih =>
    rw [List.mem_append, not_or] at hslash
    have hquote : Byte.quote ∉ letters := by
      intro hmem
      obtain ⟨front, back, rfl⟩ := List.append_of_mem hmem
      have hlast := List.mem_of_getLast? (hletters.quotesEscaped front back rfl)
      exact hslash.2 (by simp [quoted, hlast])
    have hcount : (quoted letters).count Byte.quote = 2 := by
      simp [quoted, List.count_eq_zero.mpr hquote]
    rw [List.count_append, hcount, Nat.add_mod_right]
    exact ih hslash.1

/-- A text with a colon at the start of a string. -/
def colonInString : String := "\x7b\"required\": [\":\", 5]\x7d"

theorem isText_colonInString : ∃ t, IsText t (Utf8.encode colonInString) := by
  have hstring : StringLiteral (quoted [Byte.colon]) :=
    .quoted (.of_plain (List.forall_mem_singleton.mpr rfl))
  have hspace : Blanks [0x20] := by decide
  have hlist := IsText.mk .nil (.array (.cons .nil (.string hstring)
    (.cons .nil hspace (.number numberLiteral_five) (.nil .nil)))) .nil
  have hbytes : Utf8.encode "[\":\", 5]" = Byte.openBracket :: (quoted [Byte.colon] ++
      (Byte.comma :: ([0x20] ++ ([0x35] ++ [Byte.closeBracket])))) := by decide +kernel
  have htext : IsText _ (Utf8.encode "[\":\", 5]") := hbytes ▸ hlist
  exact ⟨_, Schema.isText_inMember .required htext⟩

/-- The colons of the text end the key and stand in the string. -/
theorem colons_colonInString {front back : List UInt8}
    (h : Utf8.encode colonInString = front ++ Byte.colon :: back) :
    front = (Utf8.encode colonInString).take 11 ∨ front = (Utf8.encode colonInString).take 15 := by
  have hcolons : ∀ i < 22, (Utf8.encode colonInString)[i]? = some Byte.colon → i = 11 ∨ i = 15 := by
    decide +kernel
  have hbyte : (Utf8.encode colonInString)[front.length]? = some Byte.colon := by
    rw [h, List.getElem?_append_right (Nat.le_refl _), Nat.sub_self]
    rfl
  have hlength : front.length < 22 := by
    have htotal : (Utf8.encode colonInString).length = 22 := by decide +kernel
    rw [h, List.length_append, List.length_cons] at htotal
    omega
  have hfront : front = (Utf8.encode colonInString).take front.length := by
    rw [h, List.take_left]
  rcases hcolons _ hlength hbyte with hi | hi
  · exact .inl (hi ▸ hfront)
  · exact .inr (hi ▸ hfront)

/-- A misfit in a JSON text that is reported with what stands between two strings, a text that is the
name of no member. -/
theorem parse_mismatch_keyword_colonInString :
    (∃ t, IsText t (Utf8.encode colonInString)) ∧ ∃ l detail,
      Schema.parse "schema.json" colonInString = .error (.mismatch l (some ": [") detail) ∧
        ∀ m : Member, m.In (Utf8.encode colonInString) → m.name? ≠ some ": [" := by
  obtain ⟨l, detail, hparse⟩ := exists_mismatch_of_keywordOf
    (by decide +kernel : keywordOf "schema.json" colonInString = some ": [")
  refine ⟨isText_colonInString, l, detail, hparse, fun m hm hname => ?_⟩
  have hsaid := (hm.colonSays hname).keyAt?
  obtain ⟨after, hoccurs, hdoc⟩ := hm
  obtain ⟨hfront, hletters, hgap⟩ := hoccurs.key
  rw [Member.upToValue, List.append_assoc, List.cons_append] at hdoc
  rcases colons_colonInString hdoc with hcolon | hcolon
  · -- after the key, which is another one
    rw [hcolon] at hsaid
    exact absurd hsaid (by decide +kernel)
  · -- in the string, where no key ends
    have houtside : Outside m.upToColon :=
      hfront.append ((Tidy.string hletters).append (.blanks hgap)).outside
    rw [hcolon] at houtside
    exact absurd (houtside.count_quote_even (by decide +kernel)) (by decide +kernel)

end SchemaToGo
