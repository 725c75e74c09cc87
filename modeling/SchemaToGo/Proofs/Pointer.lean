import SchemaToGo.Pointer
import SchemaToGo.Proofs.Text.Split
set_option autoImplicit false

/-!
# Pointers

Splitting a pointer gives back the steps it was built of, so pointers that are built of different
steps are different.  The two replacements that undo the escapes of a step come to one pass over it:
`unescape_eq_decode`.

Normative source: SPEC_FULL.md section 2, item 8.
-/

namespace SchemaToGo.Pointer

/-! ## Steps -/

/-- A step's text with its tildes escaped only. -/
def escapeTildes (t : List Char) : List Char :=
  t.flatMap fun c => if c = '~' then ['~', '0'] else [c]

theorem escape_cons_of_ne {c : Char} (htilde : c ≠ '~') (hslash : c ≠ '/') (rest : List Char) :
    escape (c :: rest) = c :: escape rest := by
  rw [escape]
  · exact htilde
  · exact hslash

theorem replacePair_cons_of_ne {a x : Char} (h : x ≠ a) (b c : Char) (rest : List Char) :
    replacePair a b c (x :: rest) = x :: replacePair a b c rest := by
  cases rest with
  | nil => rfl
  | cons y rest => rw [replacePair, if_neg fun hpair => h hpair.1]

theorem replacePair_pair (a b c : Char) (rest : List Char) :
    replacePair a b c (a :: b :: rest) = c :: replacePair a b c rest := by
  rw [replacePair, if_pos ⟨rfl, rfl⟩]

theorem replacePair_cons_cons_of_ne {b y : Char} (h : y ≠ b) (a c x : Char) (rest : List Char) :
    replacePair a b c (x :: y :: rest) = x :: replacePair a b c (y :: rest) := by
  rw [replacePair, if_neg fun hpair => h hpair.2]

/-- Undoing slashes leaves the tildes escaped. -/
theorem replacePair_escape (t : List Char) :
    replacePair '~' '1' '/' (escape t) = escapeTildes t := by
  induction t with
  | nil => rfl
  | cons c rest ih =>
    by_cases htilde : c = '~'
    · subst htilde
      rw [escape, replacePair_cons_cons_of_ne (by decide), replacePair_cons_of_ne (by decide), ih]
      rfl
    · by_cases hslash : c = '/'
      · subst hslash
        rw [escape, replacePair_pair, ih]
        rfl
      · rw [escape_cons_of_ne htilde hslash, replacePair_cons_of_ne htilde, ih]
        simp [escapeTildes, htilde]

theorem replacePair_escapeTildes (t : List Char) :
    replacePair '~' '0' '~' (escapeTildes t) = t := by
  induction t with
  | nil => rfl
  | cons c rest ih =>
    by_cases htilde : c = '~'
    · subst htilde
      show replacePair '~' '0' '~' ('~' :: '0' :: escapeTildes rest) = _
      rw [replacePair_pair, ih]
    · have hcons : escapeTildes (c :: rest) = c :: escapeTildes rest := by
        simp [escapeTildes, htilde]
      rw [hcons, replacePair_cons_of_ne htilde, ih]

/-- Unescaping undoes escaping. -/
theorem unescape_escape (t : List Char) : unescape (escape t) = t := by
  unfold unescape
  rw [replacePair_escape, replacePair_escapeTildes]

/-- An escaped step has no slash in it. -/
theorem slash_not_mem_escape (t : List Char) : '/' ∉ escape t := by
  induction t with
  | nil => exact List.not_mem_nil
  | cons c rest ih =>
    by_cases htilde : c = '~'
    · subst htilde
      rw [escape]
      simp [ih]
    · by_cases hslash : c = '/'
      · subst hslash
        rw [escape]
        simp [ih]
      · rw [escape_cons_of_ne htilde hslash]
        simp [ih, Ne.symm hslash]

/-! ## Steps in one pass -/

/-- A step's text with its escapes undone in one pass from left to right: `~1` is a slash, `~0` is a
tilde, and every other character stands for itself. -/
def decode : List Char → List Char
  | '~' :: '1' :: rest => '/' :: decode rest
  | '~' :: '0' :: rest => '~' :: decode rest
  | c :: rest => c :: decode rest
  | [] => []

/-- A character that does not start a pair stays. -/
theorem replacePair_cons_of_not_head {b : Char} {t : List Char} (h : t.head? ≠ some b)
    (a c x : Char) : replacePair a b c (x :: t) = x :: replacePair a b c t := by
  cases t with
  | nil => rfl
  | cons y rest => exact replacePair_cons_cons_of_ne (fun hy => h (congrArg some hy)) a c x rest

/-- Replacing brings no other character to the front than the one that is put in. -/
theorem head?_eq_of_replacePair {a b c y : Char} (hy : y ≠ c) {t : List Char}
    (h : (replacePair a b c t).head? = some y) : t.head? = some y := by
  match t with
  | [] => exact h
  | [_] => exact h
  | x :: z :: rest =>
    rw [replacePair] at h
    split at h
    · exact absurd (Option.some.inj h).symm hy
    · exact h

/-- Undoing slashes first and tildes after comes to one pass.  A slash that is put in is neither
half of `~0`, and no character of a `~0` is half of a `~1`, so the first replacement neither makes
nor breaks a match of the second. -/
theorem unescape_eq_decode (t : List Char) : unescape t = decode t := by
  unfold unescape
  fun_induction decode t with
  | case1 rest ih =>
    rw [replacePair_pair, replacePair_cons_of_ne (by decide), ih]
  | case2 rest ih =>
    have hzero : '0' ≠ '~' := by decide
    rw [replacePair_cons_cons_of_ne (by decide), replacePair_cons_of_ne hzero, replacePair_pair, ih]
  | case3 c rest hslash htilde ih =>
    by_cases hc : c = '~'
    · subst hc
      have hone : rest.head? ≠ some '1' := by
        intro hhead
        obtain ⟨more, hrest⟩ := List.head?_eq_some_iff.mp hhead
        exact hslash more rfl hrest
      have hzero : (replacePair '~' '1' '/' rest).head? ≠ some '0' := by
        intro hhead
        obtain ⟨more, hrest⟩ :=
          List.head?_eq_some_iff.mp (head?_eq_of_replacePair (by decide) hhead)
        exact htilde more rfl hrest
      rw [replacePair_cons_of_not_head hone, replacePair_cons_of_not_head hzero, ih]
    · rw [replacePair_cons_of_ne hc, replacePair_cons_of_ne hc, ih]
  | case4 => rfl

/-- Tildes that escape nothing stay. -/
example : unescape "~~01~2~~10~".toList = "~~1~2~/0~".toList := by decide

/-! ## Pointers -/

theorem toList_push (pointer step : String) :
    (push pointer step).toList = pointer.toList ++ '/' :: escape step.toList := by
  unfold push
  rw [String.toList_append, String.toList_append, List.append_assoc]
  show _ ++ (['/'] ++ (String.ofList (escape step.toList)).toList) = _
  rw [List.singleton_append, String.toList_ofList]

/-- The characters of a pointer: every step with a slash before it. -/
theorem toList_ofSegments (steps : List String) :
    (ofSegments steps).toList = steps.flatMap fun step => '/' :: escape step.toList := by
  have hfold : ∀ (steps : List String) (pointer : String),
      (steps.foldl push pointer).toList =
        pointer.toList ++ steps.flatMap fun step => '/' :: escape step.toList := by
    intro steps
    induction steps with
    | nil => intro pointer; simp
    | cons step rest ih =>
      intro pointer
      rw [List.foldl_cons, ih, toList_push, List.flatMap_cons, List.append_assoc]
  exact hfold steps ""

/-- The slashes of a pointer are those before its steps. -/
theorem splitAll_steps (step : String) (rest : List String) :
    Text.splitAll (· = '/')
        (escape step.toList ++ rest.flatMap fun step => '/' :: escape step.toList) =
      (step :: rest).map fun step => escape step.toList := by
  have hplain : ∀ c ∈ escape step.toList, decide (c = '/') = false :=
    fun c hc => decide_eq_false fun heq => slash_not_mem_escape _ (heq ▸ hc)
  induction rest generalizing step with
  | nil =>
    rw [List.flatMap_nil, List.append_nil, Text.splitAll_of_not hplain]
    rfl
  | cons next rest ih =>
    rw [List.flatMap_cons, List.cons_append, Text.splitAll_append_cons hplain (by decide),
      ih next fun c hc => decide_eq_false fun heq => slash_not_mem_escape _ (heq ▸ hc)]
    rfl

/-- Splitting a pointer gives back its steps. -/
theorem segments?_ofSegments (steps : List String) : segments? (ofSegments steps) = some steps := by
  unfold segments?
  rw [toList_ofSegments]
  cases steps with
  | nil => rfl
  | cons step rest =>
    rw [List.flatMap_cons, List.cons_append]
    refine congrArg some ?_
    rw [splitAll_steps, List.map_map]
    have hundo : (fun t => String.ofList (unescape t)) ∘ (fun step => escape step.toList) =
        (id : String → String) := by
      funext s
      show String.ofList (unescape (escape s.toList)) = s
      rw [unescape_escape, String.ofList_toList]
    rw [hundo, List.map_id]

/-- Pointers with the same text take the same steps. -/
theorem ofSegments_injective : Function.Injective ofSegments := by
  intro steps steps' h
  have hsome : some steps = some steps' := by
    rw [← segments?_ofSegments steps, h, segments?_ofSegments]
  exact Option.some.inj hsome

/-- Splitting inverts building: it gives back the steps of every pointer that is built.  A pointer
that is written otherwise names the same steps as the one built of them, and its steps are read in
one pass. -/
theorem splitting_inverts_building :
    (∀ steps, segments? (ofSegments steps) = some steps) ∧
    (∀ pointer steps, segments? pointer = some steps →
      segments? (ofSegments steps) = some steps) ∧
    ∀ t, unescape t = decode t :=
  ⟨segments?_ofSegments, fun _ steps _ => segments?_ofSegments steps, unescape_eq_decode⟩

end SchemaToGo.Pointer
