import SchemaToGo.Proofs.Go.Columns
import SchemaToGo.Proofs.Go.File.Marks
set_option autoImplicit false

/-!
# The layout of a tree is cut into its marks

Whatever the columns and the indentation, the text of a proper tree is cut into the marks of the
tree: no two tokens run together, and comments end at the ends of their lines.  Main statement:
`cuts_fileText`.
-/

namespace SchemaToGo.Go

/-- Nothing that continues a word comes first. -/
def ContinuesNoWord (t : List Char) : Prop := ∀ c ∈ t.head?, isWordChar c = false

theorem continuesNoWord_cons {c : Char} (hc : c ∈ separators) (t : List Char) :
    ContinuesNoWord (c :: t) := by
  intro x hx
  cases hx
  exact isWordChar_of_separator hc

/-- A text that ends in ink is cut into marks up to whatever continues no word. -/
def TextCuts (t : List Char) (ms : List Mark) : Prop :=
  Text.EndsInk t ∧ ∀ rest, ContinuesNoWord rest → Cuts (t ++ rest) ms rest

theorem TextCuts.lineCuts {t : List Char} {ms : List Mark} (h : TextCuts t ms) : LineCuts t ms :=
  ⟨h.1, fun rest => h.2 _ (continuesNoWord_cons (by decide) rest)⟩

/-! ## Tokens -/

theorem cuts_word {word : List Char} (h : isWord word = true) {rest : List Char}
    (hrest : ContinuesNoWord rest) : Cuts (word ++ rest) [.token (.word word)] rest :=
  cuts_spelling (k := .word word) h hrest

theorem textCuts_word {word : List Char} (h : isWord word = true) :
    TextCuts word [.token (.word word)] :=
  ⟨endsInk_of_isWord h, fun _ hrest => cuts_word h hrest⟩

/-- An interpreted string ends with its closing quote. -/
theorem endsInk_of_stringRest {opening here : Place} {t : List Char} :
    ∀ {body left : List Char}, stringRest opening here t = .ok (body, left) →
      Text.EndsInk body := by
  fun_induction stringRest opening here t with
  | case1 => intro body left h; cases h
  | case2 => intro body left h; cases h
  | case3 =>
    intro body left h
    cases h
    exact Text.endsInk_singleton (by decide)
  | case4 => intro body left h; cases h
  | case5 here rest esc rest' _ _ _ _ ih =>
    intro body left h
    cases hrec : stringRest opening (here.advance ('\\' :: esc)) rest' with
    | error e => rw [hrec] at h; cases h
    | ok r =>
      rw [hrec] at h
      cases h
      exact (ih hrec).append _
  | case6 here c rest _ _ _ ih =>
    intro body left h
    cases hrec : stringRest opening (here.after c) rest with
    | error e => rw [hrec] at h; cases h
    | ok r =>
      rw [hrec] at h
      cases h
      exact (ih hrec).append [c]

theorem textCuts_str {literal : List Char} (h : (Kind.str literal).Spelled) :
    TextCuts literal [.token (.str literal)] := by
  refine ⟨?_, fun rest _ => cuts_spelling (k := .str literal) h trivial⟩
  rcases h with ⟨body, rfl, _⟩ | ⟨body, rfl, hbody⟩
  · exact (Text.endsInk_singleton (by decide)).append _
  · exact (endsInk_of_stringRest (hbody .start .start [])).append ['"']

theorem cuts_punct (p : Punct) (rest : List Char) :
    Cuts (p.char :: rest) [.token (.punct p)] rest :=
  cuts_spelling (k := .punct p) trivial trivial

theorem TextCuts.punct {t : List Char} {ms : List Mark} (p : Punct) (h : TextCuts t ms) :
    TextCuts (p.char :: t) (.token (.punct p) :: ms) :=
  ⟨h.1.append [p.char], fun rest hrest => (cuts_punct p _).append (h.2 rest hrest)⟩

theorem textCuts_punct (p : Punct) : TextCuts [p.char] [.token (.punct p)] := by
  refine ⟨Text.endsInk_singleton ?_, fun rest _ => cuts_punct p rest⟩
  cases p <;> decide

/-- A comment loses the blanks at its end and stays a comment. -/
theorem lineCuts_comment {text : List Char} (h : (Kind.comment text).Spelled) :
    LineCuts (Text.trimEnd text) [commentMark text] := by
  obtain ⟨body, rfl, hbody⟩ := h
  have hslashes : Text.EndsInk ['/', '/'] := ⟨['/'], '/', rfl, by decide⟩
  have htrim : Text.trimEnd ('/' :: '/' :: body) = ['/', '/'] ++ Text.trimEnd body :=
    Text.trimEnd_append hslashes body
  have hspelled : (Kind.comment (['/', '/'] ++ Text.trimEnd body)).Spelled := by
    refine ⟨Text.trimEnd body, rfl, fun hmem => hbody ?_⟩
    obtain ⟨blanks, hblanks, _⟩ := Text.exists_trimEnd_append body
    rw [hblanks]
    exact List.mem_append_left _ hmem
  unfold commentMark
  rw [htrim]
  refine ⟨Text.endsInk_append_trimEnd hslashes body, fun rest => ?_⟩
  refine cuts_spelling (k := .comment _) hspelled fun c hc => ?_
  cases hc
  rfl

theorem textCuts_name {name : List Char} (h : ProperName name) :
    TextCuts name ((nameKinds name).map .token) := by
  cases h with
  | plain hword =>
    obtain ⟨hword, _⟩ := isWord_of_isIdentifier hword
    rw [nameKinds_plain hword]
    exact textCuts_word hword
  | qualified hfirst hsecond =>
    obtain ⟨hfirst, _⟩ := isWord_of_isIdentifier hfirst
    obtain ⟨hsecond, _⟩ := isWord_of_isIdentifier hsecond
    rw [nameKinds_qualified hfirst]
    have hrest := (textCuts_word hsecond).punct .dot
    refine ⟨hrest.1.append _, fun rest hnext => ?_⟩
    rw [List.append_assoc]
    exact (cuts_word hfirst (continuesNoWord_cons (by decide) _)).append (hrest.2 rest hnext)

/-! ## Fields -/

theorem TextCuts.rowCuts {cell : List Char} {ms : List Mark} (h : TextCuts cell ms) {row : Row}
    {ns : List Mark} (hrow : RowCuts row ns) : RowCuts (cell :: row) (ms ++ ns) :=
  .cell h.1.ne_nil (fun rest => h.2 _ (continuesNoWord_cons (by decide) rest)) hrow

/-- The cells of a field from its type on are cut into tokens, and so they are with an empty tag
cell before the comment. -/
theorem rowCuts_typeCells {type : List Char} {ms : List Mark} {tag comment : Option (List Char)}
    {gap : List (List Char)} (hgap : gap = [] ∨ gap = [[]]) :
    TextCuts type ms → ProperTag tag → ProperComment comment →
      RowCuts (type :: (tag.toList ++ match comment with
          | none => []
          | some text => gap ++ [Text.trimEnd text]))
        (ms ++ ((tag.toList.map fun literal => .token (.str literal)) ++
          comment.toList.map commentMark)) := by
  intro htype htag hcomment
  cases comment with
  | none =>
    cases tag with
    | none =>
      have hlast := RowCuts.last htype.lineCuts
      rw [← List.append_nil ms] at hlast
      exact hlast
    | some literal => exact htype.rowCuts (.last (textCuts_str (htag literal rfl)).lineCuts)
  | some text =>
    have hlast : RowCuts (gap ++ [Text.trimEnd text]) [commentMark text] := by
      have hcell : RowCuts [Text.trimEnd text] [commentMark text] :=
        .last (lineCuts_comment (hcomment text rfl))
      rcases hgap with rfl | rfl
      · exact hcell
      · exact hcell.empty
    cases tag with
    | none => exact htype.rowCuts hlast
    | some literal => exact htype.rowCuts ((textCuts_str (htag literal rfl)).rowCuts hlast)

/-- The cells of a field are cut into its tokens. -/
theorem rowCuts_fieldCells {name : Option (List Char)} {type : List Char} {ms : List Mark}
    {tag comment : Option (List Char)} (hname : ∀ word ∈ name, isIdentifier word = true)
    (htype : TextCuts type ms) (htag : ProperTag tag) (hcomment : ProperComment comment) :
    RowCuts (fieldCells name type tag comment)
      (fieldMarks name ms tag ++ comment.toList.map commentMark) := by
  have hgap : (if tag.isNone ∧ name.isSome then [[]] else []) = ([] : List (List Char)) ∨
      (if tag.isNone ∧ name.isSome then [[]] else []) = ([[]] : List (List Char)) := by
    split
    · exact .inr rfl
    · exact .inl rfl
  have hcells := rowCuts_typeCells hgap htype htag hcomment
  unfold fieldCells fieldMarks
  cases name with
  | none =>
    simp only [List.append_assoc]
    exact hcells
  | some word =>
    have hword := (isWord_of_isIdentifier (hname word rfl)).1
    simp only [List.append_assoc]
    exact (textCuts_word hword).rowCuts hcells

/-! ## Bodies -/

theorem cuts_tabs (depth : Nat) (rest : List Char) : Cuts (tabs depth ++ rest) [] rest :=
  cuts_blanks (fun c hc => by rw [List.eq_of_mem_replicate hc]; rfl) rest

theorem cuts_indented (depth : Nat) {t : List Char} {ms : List Mark} (h : LineCuts t ms)
    (rest : List Char) : Cuts (indented depth t ++ rest) (ms ++ [.feed]) rest := by
  unfold indented
  rw [List.append_assoc, List.append_assoc]
  exact (cuts_tabs depth _).append ((h.2 rest).append (.feed .done))

/-- A line of a body is cut into marks. -/
inductive BodyLineCuts : BodyLine → Nat × List Mark → Prop
  | comment {newlines : Nat} {text : List Char} {ms : List Mark} : LineCuts text ms →
      BodyLineCuts ⟨newlines, .comment text⟩ (newlines, ms)
  | field {newlines : Nat} {cells : Row} {ms : List Mark} : RowCuts cells ms →
      BodyLineCuts ⟨newlines, .field cells⟩ (newlines, ms)

/-- A field that takes more than one line is laid out as a row of which each cell has its own
width. -/
theorem intersperse_eq_rowText (cells : Row) :
    (cells.intersperse [' ']).flatten = rowText (cells.map fun cell => cell.length + 1) cells := by
  induction cells with
  | nil => rfl
  | cons cell rest ih =>
    cases rest with
    | nil => rfl
    | cons next cells =>
      have hpad : pad (cell.length + 1) cell = cell ++ [' '] := by
        unfold pad
        rw [Nat.add_sub_cancel_left]
        rfl
      show cell ++ ([' '] ++ ((next :: cells).intersperse [' ']).flatten) =
        pad (cell.length + 1) cell ++ rowText _ (next :: cells)
      rw [ih, hpad, List.append_assoc]

/-- Widths greater than the cells keep them apart. -/
theorem separates_succ_length (cells : Row) :
    Separates (cells.map fun cell => cell.length + 1) cells := by
  intro column hcolumn
  have hlt : column < cells.length := Nat.lt_of_succ_lt hcolumn
  refine ⟨cells[column].length + 1, ?_, ?_⟩
  · rw [List.getElem?_map, List.getElem?_eq_getElem hlt]
    rfl
  · rw [List.getD_eq_getElem?_getD, List.getElem?_eq_getElem hlt]
    exact .inr (Nat.lt_succ_self _)

theorem solitaryText_eq {cells : Row} {ms : List Mark} (h : RowCuts cells ms) :
    solitaryText cells = (cells.intersperse [' ']).flatten := by
  have hline := lineCuts_rowText h (separates_succ_length cells)
  unfold solitaryText
  rw [intersperse_eq_rowText, hline.1.trimEnd]

theorem lineCuts_solitaryText {cells : Row} {ms : List Mark} (h : RowCuts cells ms) :
    LineCuts (solitaryText cells) ms := by
  rw [solitaryText_eq h, intersperse_eq_rowText]
  exact lineCuts_rowText h (separates_succ_length cells)

/-- The marks of a block of aligned fields. -/
def blockMarks (block : List (List Mark)) : List Mark := block.flatMap fun ms => ms ++ [.feed]

theorem cuts_blockText (depth : Nat) {block : List Row} {marks : List (List Mark)}
    (h : List.Forall₂ RowCuts block marks) (rest : List Char) :
    Cuts (blockText depth block ++ rest) (blockMarks marks) rest := by
  unfold blockText
  have hlines := forall₂_align h
  generalize align block = lines at hlines
  clear h
  induction hlines with
  | nil => exact .done
  | cons hline _ ih =>
    rw [List.flatMap_cons, List.append_assoc]
    exact (cuts_indented depth hline _).append ih

theorem blockMarks_concat (marks : List (List Mark)) (ms : List Mark) :
    blockMarks (marks ++ [ms]) = blockMarks marks ++ (ms ++ [.feed]) := by
  unfold blockMarks
  rw [List.flatMap_append, List.flatMap_singleton]

/-- A blank line ends the block of fields not yet printed, and what comes after it is printed with
an empty block. -/
theorem cuts_gap (depth : Nat) (first : Bool) (newlines : Nat) {block : List Row}
    {marks : List (List Mark)} (hblock : List.Forall₂ RowCuts block marks)
    (f : List Row → List Char) {ms : List Mark} {rest : List Char}
    (h : ∀ {block : List Row} {marks : List (List Mark)}, List.Forall₂ RowCuts block marks →
      Cuts (f block ++ rest) (blockMarks marks ++ ms) rest) :
    let apart := !first && 2 ≤ newlines
    Cuts ((if apart then blockText depth block ++ ['\n'] else []) ++
        f (if apart then [] else block) ++ rest)
      (blockMarks marks ++ (gapMarks first newlines ++ ms)) rest := by
  intro apart
  unfold gapMarks
  show Cuts _ (_ ++ ((if apart then [.feed] else []) ++ ms)) rest
  cases apart with
  | true =>
    rw [if_pos rfl, if_pos rfl, if_pos rfl, List.append_assoc, List.append_assoc]
    exact (cuts_blockText depth hblock _).append (.feed (h .nil))
  | false =>
    rw [if_neg Bool.false_ne_true, if_neg Bool.false_ne_true, if_neg Bool.false_ne_true]
    exact h hblock

/-- The lines of a body are cut into their marks, after those of the fields not yet printed. -/
theorem cuts_bodyText (depth : Nat) {lines : List BodyLine} {parts : List (Nat × List Mark)}
    (h : List.Forall₂ BodyLineCuts lines parts) {first : Bool} {block : List Row}
    {marks : List (List Mark)} (hblock : List.Forall₂ RowCuts block marks) (rest : List Char) :
    Cuts (bodyText depth first block lines ++ rest) (blockMarks marks ++ bodyMarks first parts)
      rest := by
  induction h generalizing first block marks with
  | nil =>
    rw [bodyText]
    show Cuts _ (blockMarks marks ++ []) _
    rw [List.append_nil]
    exact cuts_blockText depth hblock rest
  | @cons l part lines parts hline _ ih =>
    -- a line that belongs to no block is printed after the block before it
    have hapart : ∀ {block : List Row} {marks : List (List Mark)} {t : List Char},
        List.Forall₂ RowCuts block marks → LineCuts t part.2 →
        Cuts (blockText depth block ++ indented depth t ++ bodyText depth false [] lines ++ rest)
          (blockMarks marks ++ (part.2 ++ .feed :: bodyMarks false parts)) rest := by
      intro block marks t hblock ht
      have hmarks : part.2 ++ .feed :: bodyMarks false parts =
          (part.2 ++ [.feed]) ++ bodyMarks false parts := List.append_cons _ _ _
      rw [List.append_assoc, List.append_assoc, hmarks]
      exact (cuts_blockText depth hblock _).append
        ((cuts_indented depth ht _).append (ih .nil))
    rw [bodyText]
    cases hline with
    | @comment newlines text ms htext =>
      let f (block : List Row) : List Char :=
        blockText depth block ++ indented depth text ++ bodyText depth false [] lines
      exact cuts_gap depth first newlines hblock f fun hblock => hapart hblock htext
    | @field newlines cells ms hcells =>
      let f (block : List Row) : List Char :=
        if spansLines cells then
          blockText depth block ++ indented depth (solitaryText cells) ++
            bodyText depth false [] lines
        else bodyText depth false (block ++ [cells]) lines
      refine cuts_gap depth first newlines hblock f fun {block marks} hblock => ?_
      show Cuts ((if spansLines cells then _ else _) ++ rest) _ rest
      split
      · exact hapart hblock (lineCuts_solitaryText hcells)
      · have hjoined := List.rel_append hblock (.cons hcells .nil)
        have hmarks := @ih false _ _ hjoined
        rw [blockMarks_concat, List.append_assoc, List.append_assoc] at hmarks
        exact hmarks

/-! ## Types -/

theorem textCuts_array {digits t : List Char} {ms : List Mark} (hdigits : (Kind.int digits).Spelled)
    (h : TextCuts t ms) : TextCuts ('[' :: digits ++ ']' :: t)
      (.token (.punct .openBracket) :: .token (.int digits) :: .token (.punct .closeBracket) ::
        ms) := by
  have hclose := h.punct .closeBracket
  refine TextCuts.punct .openBracket ⟨hclose.1.append digits, fun rest hrest => ?_⟩
  show Cuts (digits ++ (']' :: t) ++ rest) _ rest
  have hint : Cuts (digits ++ (']' :: t ++ rest)) [.token (.int digits)] (']' :: t ++ rest) := by
    refine cuts_spelling (k := .int digits) hdigits fun c hc => ?_
    cases hc
    rfl
  rw [List.append_assoc]
  exact hint.append (hclose.2 rest hrest)

theorem textCuts_map {key value : List Char} {ms ns : List Mark} (hkey : TextCuts key ms)
    (hvalue : TextCuts value ns) : TextCuts ("map[".toList ++ key ++ ']' :: value)
      (.token (.word "map".toList) :: .token (.punct .openBracket) ::
        (ms ++ .token (.punct .closeBracket) :: ns)) := by
  have hclose := hvalue.punct .closeBracket
  refine ⟨hclose.1.append _, fun rest hrest => ?_⟩
  have hword : Cuts ("map".toList ++ ('[' :: (key ++ (']' :: value ++ rest))))
      [.token (.word "map".toList)] ('[' :: (key ++ (']' :: value ++ rest))) :=
    cuts_word (by decide) (continuesNoWord_cons (by decide) _)
  have hinside : Cuts (key ++ (']' :: value ++ rest)) (ms ++ .token (.punct .closeBracket) :: ns)
      rest :=
    (hkey.2 _ (continuesNoWord_cons (by decide) _)).append (hclose.2 rest hrest)
  rw [List.append_assoc, List.append_assoc]
  exact hword.append ((cuts_punct .openBracket _).append hinside)

theorem textCuts_emptyBraces {word : List Char} (h : isWord word = true) :
    TextCuts (word ++ ['\x7b', '\x7d'])
      [.token (.word word), .token (.punct .openBrace), .token (.punct .closeBrace)] := by
  have hbraces := (textCuts_punct .closeBrace).punct .openBrace
  refine ⟨hbraces.1.append word, fun rest hrest => ?_⟩
  rw [List.append_assoc]
  exact (cuts_word h (continuesNoWord_cons (by decide) _)).append (hbraces.2 rest hrest)

/-- A struct that takes several lines is cut into its marks if what stands between its first line
and its last is. -/
theorem textCuts_braces (depth : Nat) {t : List Char} {ms : List Mark}
    (h : ∀ rest, Cuts (t ++ (tabs depth ++ '\x7d' :: rest)) ms (tabs depth ++ '\x7d' :: rest)) :
    TextCuts ("struct \x7b\n".toList ++ t ++ tabs depth ++ ['\x7d'])
      (.token (.word "struct".toList) :: .token (.punct .openBrace) ::
        (.feed :: ms ++ [.token (.punct .closeBrace)])) := by
  have hclose := textCuts_punct .closeBrace
  refine ⟨hclose.1.append _, fun rest hrest => ?_⟩
  have hinside : Cuts (t ++ (tabs depth ++ '\x7d' :: rest)) (ms ++ [.token (.punct .closeBrace)])
      rest := (h rest).append ((cuts_tabs depth _).append (hclose.2 rest hrest))
  have hword : Cuts
      ("struct".toList ++ ' ' :: '\x7b' :: '\n' :: (t ++ (tabs depth ++ '\x7d' :: rest)))
      [.token (.word "struct".toList)]
      (' ' :: '\x7b' :: '\n' :: (t ++ (tabs depth ++ '\x7d' :: rest))) :=
    cuts_word (by decide) (continuesNoWord_cons (by decide) _)
  simp only [List.append_assoc]
  exact hword.append (.space rfl ((cuts_punct .openBrace _).append (.feed hinside)))

/-- A struct's text is cut into its marks if the lines of its body are. -/
theorem textCuts_structText (depth : Nat) (multiline : Bool) {lines : List BodyLine}
    {parts : List (Nat × List Mark)} (h : List.Forall₂ BodyLineCuts lines parts) :
    TextCuts (structText depth multiline lines)
      (.token (.word "struct".toList) :: .token (.punct .openBrace) ::
        (interiorMarks multiline parts ++ [.token (.punct .closeBrace)])) := by
  unfold structText interiorMarks
  cases h with
  | nil =>
    cases multiline with
    | true =>
      have hbraces := textCuts_braces depth (t := []) fun _ => .done
      rw [List.append_nil] at hbraces
      exact hbraces
    | false => exact @textCuts_emptyBraces "struct".toList (by decide)
  | cons hline hlines =>
    rw [List.isEmpty_cons, List.isEmpty_cons, if_neg Bool.false_ne_true, if_neg Bool.false_ne_true]
    exact textCuts_braces depth fun rest =>
      cuts_bodyText (depth + 1) (.cons hline hlines) .nil (tabs depth ++ '\x7d' :: rest)

mutual

/-- The text of a proper type is cut into the marks of the type. -/
theorem textCuts_type {x : TypeExpr} : ProperType x → ∀ depth, TextCuts (x.text depth) x.marks
  | .name h, _ => textCuts_name h
  | .pointer h, depth => (textCuts_type h depth).punct .star
  | .slice h, depth => ((textCuts_type h depth).punct .closeBracket).punct .openBracket
  | .array hdigits h, depth => textCuts_array hdigits (textCuts_type h depth)
  | .map hkey hvalue, depth => textCuts_map (textCuts_type hkey depth) (textCuts_type hvalue depth)
  | .emptyInterface, _ => @textCuts_emptyBraces "interface".toList (by decide)
  | .struct h, depth => textCuts_structText depth _ (forall₂_bodyLines h (depth + 1))

theorem textCuts_field {name : Option (List Char)} {x : TypeExpr} : ProperField name x →
    ∀ depth, (∀ word ∈ name, isIdentifier word = true) ∧ TextCuts (x.text depth) x.marks
  | .named hname h, depth => ⟨fun _ hword => by cases hword; exact hname, textCuts_type h depth⟩
  | .embedded h, _ => ⟨nofun, textCuts_name h⟩
  | .pointer h, depth => ⟨nofun, (textCuts_type h depth).punct .star⟩

theorem forall₂_bodyLines {ms : List Member} : ProperMembers ms →
    ∀ depth, List.Forall₂ BodyLineCuts (bodyLines depth ms) (memberMarks ms)
  | .nil, _ => .nil
  | .comment htext h, depth => .cons (.comment (lineCuts_comment htext)) (forall₂_bodyLines h depth)
  | .field hfield htag hcomment h, depth =>
    have hcells := textCuts_field hfield depth
    .cons (.field (rowCuts_fieldCells hcells.1 hcells.2 htag hcomment)) (forall₂_bodyLines h depth)

end

/-! ## Files -/

/-- The line ends after the item, or a space follows it and it is no comment. -/
def EndsItem (item : Item) (rest : List Char) : Prop :=
  ∃ c t, rest = c :: t ∧ (c = '\n' ∨ c = ' ' ∧ item.isComment = false)

theorem EndsItem.continuesNoWord {item : Item} {rest : List Char} (h : EndsItem item rest) :
    ContinuesNoWord rest := by
  obtain ⟨c, t, rfl, rfl | ⟨rfl, _⟩⟩ := h
  · exact continuesNoWord_cons (by decide) t
  · exact continuesNoWord_cons (by decide) t

/-- A proper item is cut into its marks. -/
theorem cuts_item {packaged : Bool} {item : Item} {more : List Item}
    (h : ProperItems packaged (item :: more)) {rest : List Char} (hrest : EndsItem item rest) :
    Cuts (item.text ++ rest) item.marks rest := by
  have hnext := hrest.continuesNoWord
  cases h with
  | comment htext =>
    obtain ⟨c, t, rfl, rfl | ⟨_, hcomment⟩⟩ := hrest
    · exact (lineCuts_comment htext).2 t
    · cases hcomment
  | @package _ name _ hname =>
    have hword := (isWord_of_isPackageName hname).1
    have hkeyword : Cuts ("package".toList ++ (' ' :: (name ++ rest)))
        [.token (.word "package".toList)] (' ' :: (name ++ rest)) :=
      cuts_word (by decide) (continuesNoWord_cons (by decide) _)
    show Cuts ("package ".toList ++ name ++ rest) _ rest
    rw [List.append_assoc]
    exact hkeyword.append (.space rfl (cuts_word hword hnext))
  | @type _ name type _ hname htype =>
    have hword := (isWord_of_isIdentifier hname).1
    have hkeyword : Cuts ("type".toList ++ (' ' :: (name ++ ' ' :: (type.text 0 ++ rest))))
        [.token (.word "type".toList)] (' ' :: (name ++ ' ' :: (type.text 0 ++ rest))) :=
      cuts_word (by decide) (continuesNoWord_cons (by decide) _)
    have hname : Cuts (name ++ ' ' :: (type.text 0 ++ rest)) [.token (.word name)]
        (' ' :: (type.text 0 ++ rest)) :=
      cuts_word hword (continuesNoWord_cons (by decide) _)
    show Cuts ("type ".toList ++ name ++ ' ' :: type.text 0 ++ rest) _ rest
    rw [List.append_assoc, List.append_assoc]
    exact hkeyword.append
      (.space rfl (hname.append (.space rfl ((textCuts_type htype 0).2 rest hnext))))

theorem cuts_separator (before : List Item) (item : Item) (after : List Item) (rest : List Char) :
    Cuts (separator before item after ++ rest) (separatorMarks before item after) rest := by
  unfold separator separatorMarks
  split
  · exact .space rfl .done
  · split
    · exact .feed (.feed .done)
    · exact .feed .done

/-- What follows an item ends it. -/
theorem endsItem_itemsText {packaged : Bool} {item : Item} {more : List Item}
    (h : ProperItems packaged (item :: more)) (before : List Item) :
    EndsItem item (itemsText before more ++ ['\n']) := by
  cases more with
  | nil => exact ⟨'\n', [], rfl, .inl rfl⟩
  | cons next after =>
    show EndsItem item (separator before next after ++ next.text ++ _ ++ _)
    unfold separator
    split
    · next hspace =>
      refine ⟨' ', _, rfl, .inr ⟨rfl, eq_false_of_ne_true fun hcomment => ?_⟩⟩
      have hpos := h.newlines_pos hcomment next rfl
      rw [Bool.and_eq_true, beq_iff_eq] at hspace
      exact Nat.ne_of_gt hpos hspace.2
    · split
      · exact ⟨'\n', _, rfl, .inl rfl⟩
      · exact ⟨'\n', _, rfl, .inl rfl⟩

theorem cuts_itemsText {packaged : Bool} {items : List Item} (h : ProperItems packaged items)
    (before : List Item) :
    Cuts (itemsText before items ++ ['\n']) (itemsMarks before items ++ [.feed]) [] := by
  induction items generalizing packaged before with
  | nil => exact .feed .done
  | cons item after ih =>
    obtain ⟨_, hafter⟩ := h.tail
    have hitem := cuts_item h (endsItem_itemsText h (item :: before))
    have hmarks := hitem.append (ih hafter (item :: before))
    show Cuts (separator before item after ++ item.text ++ _ ++ _)
      (separatorMarks before item after ++ (item.marks ++ _) ++ _) []
    simp only [List.append_assoc] at hmarks ⊢
    exact (cuts_separator before item after _).append hmarks

/-- The text of a proper file is cut into the marks of the file. -/
theorem cuts_fileText {packaged : Bool} {items : List Item} (h : ProperItems packaged items) :
    Cuts (fileText items) (fileMarks items) [] := by
  cases items with
  | nil => exact .feed .done
  | cons item rest =>
    obtain ⟨_, hrest⟩ := h.tail
    have hitem := cuts_item h (endsItem_itemsText h [item])
    show Cuts (item.text ++ itemsText [item] rest ++ ['\n'])
      (item.marks ++ (itemsMarks [item] rest ++ [.feed])) []
    rw [List.append_assoc]
    exact hitem.append (cuts_itemsText hrest [item])

end SchemaToGo.Go
