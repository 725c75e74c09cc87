import SchemaToGo.Go.File.Parse
import SchemaToGo.Proofs.Go.Token.Scan
set_option autoImplicit false

/-!
# Types as they are written

The types that fields and aliases are given, as terms.  A term says how its type is written and what
the parser reads there, whatever comes after it.
-/

namespace SchemaToGo.Go

/-- A type that a field or an alias may be given. -/
inductive TypeTerm where
  | name (word : List Char)
  | pointer (target : TypeTerm)
  | list (element : TypeTerm)
  /-- texts to values of a type -/
  | dictionary (value : TypeTerm)
  | anything

namespace TypeTerm

/-- The tokens of the type. -/
def kinds : TypeTerm → List Kind
  | name word => [.word word]
  | pointer target => .punct .star :: target.kinds
  | list element => .punct .openBracket :: .punct .closeBracket :: element.kinds
  | dictionary value =>
    .word "map".toList :: .punct .openBracket :: .word "string".toList :: .punct .closeBracket ::
      value.kinds
  | anything => [.word "interface".toList, .punct .openBrace, .punct .closeBrace]

/-- The type as it is written, without blanks. -/
def text (t : TypeTerm) : List Char := t.kinds.flatMap Kind.spelling

/-- What the parser reads. -/
def expr : TypeTerm → TypeExpr
  | name word => .named word
  | pointer target => .pointer target.expr
  | list element => .slice element.expr
  | dictionary value => .map (.named "string".toList) value.expr
  | anything => .emptyInterface

/-- The name at the end of the type, if it ends in one. -/
def leaf? : TypeTerm → Option (List Char)
  | name word => some word
  | pointer target => target.leaf?
  | list element => element.leaf?
  | dictionary value => value.leaf?
  | anything => none

/-- The name in the type is a word. -/
def Legible (t : TypeTerm) : Prop := ∀ word ∈ t.leaf?, isWord word = true

/-- The name in the type is a keyword. -/
def HasKeyword (t : TypeTerm) : Prop := ∃ word ∈ t.leaf?, isKeyword word = true

end TypeTerm

/-! ## Reading types -/

namespace Parse

variable {finish : Place}

/-- A parser accepts nothing here. -/
def Refused {α : Type} (r : Except FormatError α) : Prop := ∃ e, r = .error e

theorem Refused.map {α β : Type} {f : α → β} {r : Except FormatError α} (h : Refused r) :
    Refused (r.map f) := by
  obtain ⟨e, rfl⟩ := h
  exact ⟨e, rfl⟩

theorem Refused.bind {α β : Type} {f : α → Except FormatError β} {r : Except FormatError α}
    (h : Refused r) : Refused (r >>= f) := by
  obtain ⟨e, rfl⟩ := h
  exact ⟨e, rfl⟩

theorem punct_cons {t : Token} {p : Punct} (h : t.kind = .punct p) (rest : List Token) :
    punct finish p (t :: rest) = .ok ((), rest) := if_pos h

/-- A punctuation mark is not found before another kind of token. -/
theorem punct_refused {ts : List Token} {p : Punct} (h : ∀ t ∈ ts.head?, t.kind ≠ .punct p) :
    Refused (punct finish p ts) := by
  cases ts with
  | nil => exact ⟨_, rfl⟩
  | cons t rest => exact ⟨_, if_neg (h t rfl)⟩

theorem nameRest_of_not_dot {first : List Char} {ts : List Token}
    (h : ∀ t ∈ ts.head?, t.kind ≠ .punct .dot) :
    nameRest finish first ts = .ok (.named first, ts) := by
  cases ts with
  | nil => rfl
  | cons t rest => exact if_neg (h t rfl)

theorem not_isKeyword_ne {word keyword : List Char} (h : isKeyword word = false)
    (hkeyword : isKeyword keyword = true) : word ≠ keyword := by
  rintro rfl
  rw [h] at hkeyword
  cases hkeyword

/-! ### By the first token -/

section

variable {t : Token} {word : List Char}

theorem type_word (ht : t.kind = .word word) (n : Nat) (rest : List Token) :
    type finish (n + 1) (t :: rest) =
      if word = "struct".toList then do
        let (_, body) ← punct finish .openBrace rest
        let ((members, last), left) ← members finish n body
        return (.struct members (last ≠ (placeOf finish rest).line), left)
      else if word = "interface".toList then do
        let (_, rest) ← punct finish .openBrace rest
        let (_, left) ← punct finish .closeBrace rest
        return (.emptyInterface, left)
      else if word = "map".toList then do
        let (_, rest) ← punct finish .openBracket rest
        let (key, rest) ← type finish n rest
        let (_, rest) ← punct finish .closeBracket rest
        let (value, left) ← type finish n rest
        return (.map key value, left)
      else if isKeyword word then refuse finish (.unexpectedKeyword word) (t :: rest)
      else nameRest finish word rest := by
  rw [type.eq_def]
  dsimp only
  rw [ht]

theorem type_star (ht : t.kind = .punct .star) (n : Nat) (rest : List Token) :
    type finish (n + 1) (t :: rest) = do
      let (target, left) ← type finish n rest
      return (.pointer target, left) := by
  rw [type.eq_def]
  dsimp only
  rw [ht]

theorem type_slice (ht : t.kind = .punct .openBracket) {t' : Token}
    (ht' : t'.kind = .punct .closeBracket) (n : Nat) (rest : List Token) :
    type finish (n + 1) (t :: t' :: rest) = do
      let (element, left) ← type finish n rest
      return (.slice element, left) := by
  rw [type.eq_def]
  dsimp only
  rw [ht]
  dsimp only
  rw [ht']

/-- A name that is no keyword is read as a type. -/
theorem type_name (ht : t.kind = .word word) (hword : isKeyword word = false) {rest : List Token}
    (hrest : ∀ x ∈ rest.head?, x.kind ≠ .punct .dot) (n : Nat) :
    type finish (n + 1) (t :: rest) = .ok (.named word, rest) := by
  rw [type_word ht, if_neg (not_isKeyword_ne hword (by decide)),
    if_neg (not_isKeyword_ne hword (by decide)), if_neg (not_isKeyword_ne hword (by decide)),
    if_neg (by simp [hword])]
  exact nameRest_of_not_dot hrest

/-- The key of a dictionary's type is read as a name. -/
theorem type_map {t₂ t₃ t₄ : Token} (ht : t.kind = .word "map".toList)
    (ht₂ : t₂.kind = .punct .openBracket) (ht₃ : t₃.kind = .word "string".toList)
    (ht₄ : t₄.kind = .punct .closeBracket) (n : Nat) (rest : List Token) :
    type finish (n + 2) (t :: t₂ :: t₃ :: t₄ :: rest) = do
      let (value, left) ← type finish (n + 1) rest
      return (.map (.named "string".toList) value, left) := by
  have hkey : type finish (n + 1) (t₃ :: t₄ :: rest) =
      .ok (.named "string".toList, t₄ :: rest) :=
    type_name ht₃ (by decide) (fun x hx => by cases hx; rw [ht₄]; decide) n
  rw [type_word ht, if_neg (by decide), if_neg (by decide), if_pos rfl, punct_cons ht₂]
  show (type finish (n + 1) (t₃ :: t₄ :: rest) >>= _) = _
  rw [hkey]
  show (punct finish .closeBracket (t₄ :: rest) >>= _) = _
  rw [punct_cons ht₄]
  rfl

theorem type_interface {t₂ t₃ : Token} (ht : t.kind = .word "interface".toList)
    (ht₂ : t₂.kind = .punct .openBrace) (ht₃ : t₃.kind = .punct .closeBrace) (n : Nat)
    (rest : List Token) :
    type finish (n + 1) (t :: t₂ :: t₃ :: rest) = .ok (.emptyInterface, rest) := by
  rw [type_word ht, if_neg (by decide), if_pos rfl, punct_cons ht₂]
  show (punct finish .closeBrace (t₃ :: rest) >>= _) = _
  rw [punct_cons ht₃]
  rfl

/-- A keyword at the end of a type is refused: no type starts with it, or it takes a bracket. -/
theorem type_keyword (ht : t.kind = .word word) (hword : isKeyword word = true)
    {rest : List Token} (hrest : ∀ x ∈ rest.head?, ∀ p, x.kind ≠ .punct p) (n : Nat) :
    Refused (type finish (n + 1) (t :: rest)) := by
  have hpunct : ∀ p, Refused (punct finish p rest) := fun p =>
    punct_refused fun x hx => hrest x hx p
  rw [type_word ht]
  split
  · exact (hpunct .openBrace).bind
  · split
    · exact (hpunct .openBrace).bind
    · split
      · exact (hpunct .openBracket).bind
      · exact ⟨_, rfl⟩

end

/-! ### Whole types -/

/-- The tokens of a type are read as the type, and refused if there is a keyword in it, unless
punctuation comes after them. -/
theorem type_term (finish : Place) (term : TypeTerm) {ts rest : List Token}
    (hts : ts.map Token.kind = term.kinds) (hrest : ∀ x ∈ rest.head?, ∀ p, x.kind ≠ .punct p)
    {n : Nat} (hn : ts.length ≤ n) :
    (¬ term.HasKeyword → type finish n (ts ++ rest) = .ok (term.expr, rest)) ∧
      (term.HasKeyword → Refused (type finish n (ts ++ rest))) := by
  induction term generalizing ts n with
  | name word =>
    obtain ⟨t, more, rfl, ht, hmore⟩ := List.map_eq_cons_iff.mp hts
    rw [List.map_eq_nil_iff.mp hmore] at hn ⊢
    obtain ⟨n, rfl⟩ := Nat.exists_eq_add_of_le' hn
    refine ⟨fun hterm => ?_, fun hterm => ?_⟩
    · have hword : isKeyword word = false :=
        Bool.eq_false_iff.mpr fun h => hterm ⟨word, rfl, h⟩
      exact type_name ht hword (fun x hx => hrest x hx .dot) n
    · obtain ⟨_, hleaf, hword⟩ := hterm
      cases hleaf
      exact type_keyword ht hword hrest n
  | pointer target ih =>
    obtain ⟨t, more, rfl, ht, hmore⟩ := List.map_eq_cons_iff.mp hts
    obtain ⟨n, rfl⟩ := Nat.exists_eq_succ_of_ne_zero (Nat.ne_zero_of_lt hn)
    obtain ⟨hread, hrefused⟩ := ih hmore (Nat.le_of_succ_le_succ hn)
    rw [List.cons_append, type_star ht]
    refine ⟨fun hterm => ?_, fun hterm => (hrefused hterm).bind⟩
    rw [hread hterm]
    rfl
  | list element ih =>
    obtain ⟨t, more, rfl, ht, hmore⟩ := List.map_eq_cons_iff.mp hts
    obtain ⟨t', more, rfl, ht', hmore⟩ := List.map_eq_cons_iff.mp hmore
    simp only [List.length_cons] at hn
    obtain ⟨n, rfl⟩ := Nat.exists_eq_succ_of_ne_zero (Nat.ne_zero_of_lt hn)
    obtain ⟨hread, hrefused⟩ := ih hmore (by omega : more.length ≤ n)
    rw [List.cons_append, List.cons_append, type_slice ht ht']
    refine ⟨fun hterm => ?_, fun hterm => (hrefused hterm).bind⟩
    rw [hread hterm]
    rfl
  | dictionary value ih =>
    obtain ⟨t₁, more, rfl, ht₁, hmore⟩ := List.map_eq_cons_iff.mp hts
    obtain ⟨t₂, more, rfl, ht₂, hmore⟩ := List.map_eq_cons_iff.mp hmore
    obtain ⟨t₃, more, rfl, ht₃, hmore⟩ := List.map_eq_cons_iff.mp hmore
    obtain ⟨t₄, more, rfl, ht₄, hmore⟩ := List.map_eq_cons_iff.mp hmore
    simp only [List.length_cons] at hn
    obtain ⟨n, rfl⟩ := Nat.exists_eq_add_of_le' (by omega : 2 ≤ n)
    obtain ⟨hread, hrefused⟩ := ih hmore (by omega : more.length ≤ n + 1)
    simp only [List.cons_append]
    rw [type_map ht₁ ht₂ ht₃ ht₄]
    refine ⟨fun hterm => ?_, fun hterm => (hrefused hterm).bind⟩
    rw [hread hterm]
    rfl
  | anything =>
    obtain ⟨t₁, more, rfl, ht₁, hmore⟩ := List.map_eq_cons_iff.mp hts
    obtain ⟨t₂, more, rfl, ht₂, hmore⟩ := List.map_eq_cons_iff.mp hmore
    obtain ⟨t₃, more, rfl, ht₃, hmore⟩ := List.map_eq_cons_iff.mp hmore
    rw [List.map_eq_nil_iff.mp hmore] at hn ⊢
    obtain ⟨n, rfl⟩ := Nat.exists_eq_succ_of_ne_zero (Nat.ne_zero_of_lt hn)
    refine ⟨fun _ => type_interface ht₁ ht₂ ht₃ n rest, fun hterm => ?_⟩
    obtain ⟨_, hleaf, _⟩ := hterm
    cases hleaf

end Parse

end SchemaToGo.Go
