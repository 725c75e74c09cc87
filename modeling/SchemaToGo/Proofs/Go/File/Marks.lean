import SchemaToGo.Go.File.Print
import SchemaToGo.Proofs.Go.File.Proper
set_option autoImplicit false

/-!
# The marks of a tree

The tokens and line breaks that the canonical layout of a tree has.  Their tokens are those that
the tree is read from, apart from semicolons and the blanks at the ends of comments:
`code_of_readsItems`.
-/

namespace SchemaToGo.Go

/-! ## Marks -/

/-- The words of a name and the dot between them. -/
def nameKinds (name : List Char) : List Kind :=
  match name.dropWhile (· ≠ '.') with
  | [] => [.word name]
  | _ :: second => [.word (name.takeWhile (· ≠ '.')), .punct .dot, .word second]

/-- A comment without the blanks at its end. -/
def commentMark (text : List Char) : Mark := .token (.comment (Text.trimEnd text))

/-- A field up to its comment. -/
def fieldMarks (name : Option (List Char)) (type : List Mark) (tag : Option (List Char)) :
    List Mark :=
  (name.toList.map fun word => .token (.word word)) ++ type ++
    tag.toList.map fun literal => .token (.str literal)

/-- The blank line before a member, which the first member has not. -/
def gapMarks (first : Bool) (newlines : Nat) : List Mark :=
  if !first && 2 ≤ newlines then [.feed] else []

/-- The lines of a body, each with the line breaks that its member has before it. -/
def bodyMarks : Bool → List (Nat × List Mark) → List Mark
  | _, [] => []
  | first, (newlines, ms) :: rest =>
    gapMarks first newlines ++ (ms ++ .feed :: bodyMarks false rest)

/-- What stands between the braces of a struct. -/
def interiorMarks (multiline : Bool) (lines : List (Nat × List Mark)) : List Mark :=
  if lines.isEmpty then if multiline then [.feed] else [] else .feed :: bodyMarks true lines

mutual

/-- A type. -/
def TypeExpr.marks : TypeExpr → List Mark
  | .named name => (nameKinds name).map .token
  | .pointer target => .token (.punct .star) :: target.marks
  | .slice element => .token (.punct .openBracket) :: .token (.punct .closeBracket) :: element.marks
  | .array digits element =>
    .token (.punct .openBracket) :: .token (.int digits) :: .token (.punct .closeBracket) ::
      element.marks
  | .map key value =>
    .token (.word "map".toList) :: .token (.punct .openBracket) ::
      (key.marks ++ .token (.punct .closeBracket) :: value.marks)
  | .emptyInterface =>
    [.token (.word "interface".toList), .token (.punct .openBrace), .token (.punct .closeBrace)]
  | .struct members multiline =>
    .token (.word "struct".toList) :: .token (.punct .openBrace) ::
      (interiorMarks multiline (memberMarks members) ++ [.token (.punct .closeBrace)])
termination_by structural type => type

/-- The members of a struct, each with the line breaks before it. -/
def memberMarks : List Member → List (Nat × List Mark)
  | [] => []
  | .comment newlines text :: rest => (newlines, [commentMark text]) :: memberMarks rest
  | .field newlines name type tag comment :: rest =>
    (newlines, fieldMarks name type.marks tag ++ comment.toList.map commentMark) ::
      memberMarks rest
termination_by structural members => members

end

/-- An item. -/
def Item.marks (item : Item) : List Mark :=
  match item.decl with
  | .comment text => [commentMark text]
  | .package name => [.token (.word "package".toList), .token (.word name)]
  | .type name type => .token (.word "type".toList) :: .token (.word name) :: type.marks

/-- What separates an item from the one before it. -/
def separatorMarks (before : List Item) (item : Item) (after : List Item) : List Mark :=
  if item.isComment && item.newlines == 0 then []
  else if 2 ≤ item.newlines || needsBlankLine before item after then [.feed, .feed]
  else [.feed]

/-- The items after the first. -/
def itemsMarks : List Item → List Item → List Mark
  | _, [] => []
  | before, item :: after =>
    separatorMarks before item after ++ (item.marks ++ itemsMarks (item :: before) after)

/-- A file. -/
def fileMarks : List Item → List Mark
  | [] => [.feed]
  | item :: rest => item.marks ++ (itemsMarks [item] rest ++ [.feed])

theorem no_dot_of_isWord {word : List Char} (h : isWord word = true) :
    ∀ c ∈ word, decide (c ≠ '.') = true := by
  intro c hc
  refine decide_eq_true ?_
  rintro rfl
  have hword := isWordChar_of_mem h hc
  rw [isWordChar_of_separator (by decide)] at hword
  cases hword

theorem nameKinds_plain {word : List Char} (h : isWord word = true) :
    nameKinds word = [.word word] := by
  obtain ⟨_, hdrop⟩ := @takeWhile_append_stop _ _ [] (no_dot_of_isWord h) nofun
  rw [List.append_nil] at hdrop
  unfold nameKinds
  rw [hdrop]

theorem nameKinds_qualified {first : List Char} (h : isWord first = true) (second : List Char) :
    nameKinds (first ++ '.' :: second) = [.word first, .punct .dot, .word second] := by
  have hstop : ∀ c ∈ ('.' :: second).head?, decide (c ≠ '.') = false := by
    intro c hc
    cases hc
    rfl
  obtain ⟨htake, hdrop⟩ := takeWhile_append_stop (no_dot_of_isWord h) hstop
  unfold nameKinds
  rw [hdrop, htake]

/-! ## Tokens of marks -/

namespace Kind

def isSemicolon : Kind → Bool
  | semicolon _ => true
  | _ => false

/-- A comment loses the blanks at its end. -/
def trimmed : Kind → Kind
  | comment text => comment (Text.trimEnd text)
  | k => k

/-- Only comments are trimmed. -/
theorem trimmed_eq_self {k : Kind} (h : k.isComment = false) : k.trimmed = k := by
  cases k with
  | comment text => cases h
  | _ => rfl

end Kind

/-- The tokens that say something, without the blanks at the ends of comments. -/
def significant (ks : List Kind) : List Kind :=
  (ks.filter fun k => !k.isSemicolon).map Kind.trimmed

/-- The token of a mark. -/
def Mark.kind? : Mark → Option Kind
  | token k => some k
  | feed => none

/-- The tokens of marks. -/
def code (ms : List Mark) : List Kind := ms.filterMap Mark.kind?

theorem significant_append (ks ls : List Kind) :
    significant (ks ++ ls) = significant ks ++ significant ls := by
  unfold significant
  rw [List.filter_append, List.map_append]

theorem code_append (ms ns : List Mark) : code (ms ++ ns) = code ms ++ code ns :=
  List.filterMap_append

theorem code_tokens (ks : List Kind) : code (ks.map .token) = ks := by
  induction ks with
  | nil => rfl
  | cons k rest ih => exact congrArg (k :: ·) ih

theorem code_gapMarks (first : Bool) (newlines : Nat) : code (gapMarks first newlines) = [] := by
  unfold gapMarks
  split <;> rfl

theorem code_bodyMarks (first : Bool) (lines : List (Nat × List Mark)) :
    code (bodyMarks first lines) = lines.flatMap fun l => code l.2 := by
  induction lines generalizing first with
  | nil => rfl
  | cons l rest ih =>
    show code (gapMarks first l.1 ++ (l.2 ++ .feed :: bodyMarks false rest)) = _
    rw [code_append, code_append, code_gapMarks]
    exact congrArg (code l.2 ++ ·) (ih false)

theorem code_interiorMarks (multiline : Bool) (lines : List (Nat × List Mark)) :
    code (interiorMarks multiline lines) = lines.flatMap fun l => code l.2 := by
  unfold interiorMarks
  cases lines with
  | nil => cases multiline <;> rfl
  | cons l rest => exact code_bodyMarks true (l :: rest)

theorem code_separatorMarks (before : List Item) (item : Item) (after : List Item) :
    code (separatorMarks before item after) = [] := by
  unfold separatorMarks
  split
  · rfl
  · split <;> rfl

theorem code_itemsMarks (before items : List Item) :
    code (itemsMarks before items) = items.flatMap fun item => code item.marks := by
  induction items generalizing before with
  | nil => rfl
  | cons item after ih =>
    show code (separatorMarks before item after ++ (item.marks ++ _)) = _
    rw [code_append, code_append, code_separatorMarks, ih]
    rfl

theorem code_fileMarks (items : List Item) :
    code (fileMarks items) = items.flatMap fun item => code item.marks := by
  cases items with
  | nil => rfl
  | cons item rest =>
    show code (item.marks ++ (itemsMarks [item] rest ++ [.feed])) = _
    rw [code_append, code_append, code_itemsMarks]
    exact congrArg (code item.marks ++ ·) (List.append_nil _)

/-! ## What is read is kept -/

theorem code_of_readsName {ts : List Token} {name : List Char} (h : ReadsName ts name)
    (hts : Legible ts) : nameKinds name = significant (ts.map Token.kind) := by
  cases h with
  | plain ht hword =>
    have hspelled := hts.spelled List.mem_cons_self ht nofun
    rw [nameKinds_plain hspelled, List.map_singleton, ht]
    rfl
  | qualified ht _ hdot hu _ =>
    have hspelled := hts.spelled List.mem_cons_self ht nofun
    simp only [nameKinds_qualified hspelled, List.map_cons, List.map_nil, ht, hdot, hu]
    rfl

theorem code_of_readsTag {ts : List Token} {tag : Option (List Char)} (h : ReadsTag ts tag) :
    code (tag.toList.map fun literal => .token (.str literal)) =
      significant (ts.map Token.kind) := by
  cases h with
  | none => rfl
  | some ht =>
    rw [List.map_singleton, ht]
    rfl

mutual

theorem code_of_readsType {ts : List Token} {x : TypeExpr} (hts : Legible ts) :
    ReadsType ts x → code x.marks = significant (ts.map Token.kind)
  | .name h => (code_tokens _).trans (code_of_readsName h hts)
  | .pointer ht h => by
    rw [List.map_cons, ht]
    exact congrArg (_ :: ·) (code_of_readsType hts.tail h)
  | .slice ht hu h => by
    rw [List.map_cons, List.map_cons, ht, hu]
    exact congrArg (_ :: _ :: ·) (code_of_readsType hts.tail.tail h)
  | .array ht hu hv h => by
    rw [List.map_cons, List.map_cons, List.map_cons, ht, hu, hv]
    exact congrArg (_ :: _ :: _ :: ·) (code_of_readsType hts.tail.tail.tail h)
  | @ReadsType.map t u v ts us key value ht hu hkey hv hvalue => by
    rw [List.map_cons, List.map_cons, List.map_append, List.map_cons, ht, hu, hv]
    show _ :: _ :: code (key.marks ++ .token (.punct .closeBracket) :: value.marks) =
      _ :: _ :: significant (_ ++ _)
    rw [code_append, significant_append, code_of_readsType hts.tail.tail.left hkey]
    exact congrArg (fun ks => _ :: _ :: (_ ++ (_ :: ks)))
      (code_of_readsType hts.tail.tail.right.tail hvalue)
  | .emptyInterface ht hu hv => by
    simp only [List.map_cons, List.map_nil, ht, hu, hv]
    rfl
  | @ReadsType.struct t u v ts members ht hu h hv => by
    rw [List.map_cons, List.map_cons, List.map_append, List.map_singleton, ht, hu, hv]
    show _ :: _ :: code (interiorMarks _ (memberMarks members) ++ _) =
      _ :: _ :: significant (_ ++ _)
    rw [code_append, code_interiorMarks, significant_append,
      code_of_readsMembers hts.tail.tail.left h]
    rfl

theorem code_of_readsField {ts : List Token} {name : Option (List Char)} {x : TypeExpr}
    {tag : Option (List Char)} (hts : Legible ts) :
    ReadsField ts name x tag → code (fieldMarks name x.marks tag) = significant (ts.map Token.kind)
  | .named ht _ h htag => by
    rw [List.map_cons, List.map_append, ht]
    show _ :: code (x.marks ++ _) = _ :: significant (_ ++ _)
    rw [code_append, significant_append, code_of_readsType hts.tail.left h, code_of_readsTag htag]
    rfl
  | .embedded h htag => by
    rw [List.map_append]
    show code ((nameKinds _).map .token ++ _) = _
    rw [code_append, significant_append, code_tokens, code_of_readsName h hts.left,
      code_of_readsTag htag]
  | .pointer ht h htag => by
    rw [List.map_cons, List.map_append, ht]
    show _ :: code (_ ++ _) = _ :: significant (_ ++ _)
    rw [code_append, significant_append, code_of_readsType hts.tail.left h, code_of_readsTag htag]
    rfl

theorem code_of_readsMembers {ts : List Token} {ms : List Member} (hts : Legible ts) :
    ReadsMembers ts ms →
      ((memberMarks ms).flatMap fun l => code l.2) = significant (ts.map Token.kind)
  | .nil => rfl
  | .comment ht h => by
    rw [List.map_cons, ht]
    exact congrArg (_ :: ·) (code_of_readsMembers hts.tail h)
  | .last h => by
    show code (fieldMarks _ _ _ ++ []) ++ [] = _
    rw [List.append_nil, List.append_nil]
    exact code_of_readsField hts h
  | @ReadsMembers.field t semicolon _ ts us _ _ _ _ h hsemicolon _ hmore => by
    have hall : Legible ((t :: ts) ++ semicolon :: us) := hts
    have htokens : (t :: (ts ++ semicolon :: us)).map Token.kind =
        (t :: ts).map Token.kind ++ semicolon.kind :: us.map Token.kind := by simp
    rw [htokens, hsemicolon, significant_append]
    show code (fieldMarks _ _ _ ++ []) ++ _ = _
    rw [List.append_nil, code_of_readsField hall.left h]
    exact congrArg (_ ++ ·) (code_of_readsMembers hall.right.tail hmore)
  | @ReadsMembers.commented t semicolon u _ text ts us _ _ _ _ h hsemicolon hu _ hmore => by
    have hall : Legible ((t :: ts) ++ semicolon :: u :: us) := hts
    have htokens : (t :: (ts ++ semicolon :: u :: us)).map Token.kind =
        (t :: ts).map Token.kind ++ semicolon.kind :: u.kind :: us.map Token.kind := by simp
    rw [htokens, hsemicolon, hu, significant_append]
    show code (fieldMarks _ _ _ ++ [commentMark text]) ++ _ = _
    rw [code_append, code_of_readsField hall.left h, List.append_assoc]
    exact congrArg (fun ks => _ ++ (_ :: ks)) (code_of_readsMembers hall.right.tail.tail hmore)

end

theorem significant_of_ends {ts us : List Token} (h : Ends ts us) :
    significant (ts.map Token.kind) = significant (us.map Token.kind) := by
  cases h with
  | semicolon ht =>
    rw [List.map_cons, ht]
    rfl
  | finish => rfl

/-- The tokens of items are those that the items are read from. -/
theorem code_of_readsItems {packaged : Bool} {ts : List Token} {its : List Item}
    (h : ReadsItems packaged ts its) (hts : Legible ts) :
    (its.flatMap fun item => code item.marks) = significant (ts.map Token.kind) := by
  induction h with
  | nil => rfl
  | comment ht _ ih =>
    rw [List.map_cons, ht]
    exact congrArg (_ :: ·) (ih hts.tail)
  | package ht hu _ hend _ ih =>
    rw [List.map_cons, List.map_cons, ht, hu]
    show _ :: _ :: _ = _ :: _ :: significant _
    rw [significant_of_ends hend]
    exact congrArg (_ :: _ :: ·) (ih (hts.tail.tail.of_subset (suffix_of_ends hend).subset))
  | @type t u name ts us vs x more ht hu _ htype hend _ ih =>
    rw [List.map_cons, List.map_cons, List.map_append, ht, hu]
    show _ :: _ :: (code x.marks ++ _) = _ :: _ :: significant (_ ++ _)
    rw [significant_append, significant_of_ends hend, code_of_readsType hts.tail.tail.left htype,
      ← ih (hts.tail.tail.right.of_subset (suffix_of_ends hend).subset)]
    rfl

end SchemaToGo.Go
