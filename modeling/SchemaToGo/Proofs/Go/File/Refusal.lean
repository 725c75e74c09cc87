import SchemaToGo.Proofs.Go.Grammar
set_option autoImplicit false

/-!
# Where the parser stops

The parser refuses tokens at the first one that does not fit: those before it can be continued to
what the parser reads.  A parser that has not read anything can go on with the shortest text of its
production, and one that has read some of its parts with the shortest texts of the others.  These
are put together along the recursion of the parser, by the same induction on the bound as soundness.
-/

namespace SchemaToGo.Go

open Grammar

namespace Parse

/-! ## Continuations -/

/-- Tokens that can be written in a row: they are spelled, and none is a comment. -/
def Plain (ks : List Kind) : Prop := ∀ k ∈ ks, k.Spelled ∧ k.isComment = false

namespace Plain

theorem nil : Plain [] := nofun

theorem cons {k : Kind} {ks : List Kind} (hk : k.Spelled) (hcomment : k.isComment = false)
    (h : Plain ks) : Plain (k :: ks) := by
  intro l hl
  rcases List.mem_cons.mp hl with rfl | hl
  · exact ⟨hk, hcomment⟩
  · exact h l hl

theorem append {ks ls : List Kind} (h : Plain ks) (h' : Plain ls) : Plain (ks ++ ls) := by
  intro k hk
  rcases List.mem_append.mp hk with hk | hk
  · exact h k hk
  · exact h' k hk

theorem punct {ks : List Kind} (p : Punct) (h : Plain ks) : Plain (.punct p :: ks) :=
  .cons trivial rfl h

theorem word {text : List Char} {ks : List Kind} (hword : isWord text = true) (h : Plain ks) :
    Plain (.word text :: ks) :=
  .cons hword rfl h

end Plain

/-- The shortest name. -/
def shortName : List Char := ['a']

theorem isWord_shortName : isWord shortName = true := by decide

theorem isKeyword_shortName : isKeyword shortName = false := by decide

/-- The shortest type. -/
def shortType : List Kind := [.word shortName]

theorem isType_shortType : IsType shortType := .name (.plain isKeyword_shortName)

theorem plain_shortType : Plain shortType := .word isWord_shortName .nil

/-- Tokens are refused where they cannot go on: those before can be continued to what `G` derives,
and the refusal stands at the next one. -/
def Stuck (finish : Place) (G : List Kind → Prop) (ts : List Token) (e : FormatError) : Prop :=
  ∃ used left more, ts = used ++ left ∧ e.place = placeOf finish left ∧ Plain more ∧
    G (used.map Token.kind ++ more)

section

variable {finish : Place} {G H : List Kind → Prop} {ts left : List Token} {e : FormatError}

/-- The first token is refused. -/
theorem Stuck.here {more : List Kind} (he : e.place = placeOf finish ts) (hmore : Plain more)
    (h : G more) : Stuck finish G ts e :=
  ⟨[], ts, more, rfl, he, hmore, h⟩

/-- What is derived from the tokens up to a refusal is part of what is derived from more. -/
theorem Stuck.within (h : Stuck finish G left e) (used : List Token) {tail : List Kind}
    (htail : Plain tail) (hG : ∀ ks, G ks → H (used.map Token.kind ++ (ks ++ tail))) :
    Stuck finish H (used ++ left) e := by
  obtain ⟨front, left, more, rfl, he, hmore, hderived⟩ := h
  refine ⟨used ++ front, left, more ++ tail, by simp, he, hmore.append htail, ?_⟩
  have := hG _ hderived
  rw [List.append_assoc] at this
  rw [List.map_append, List.append_assoc]
  exact this

/-- A token behind some others is refused. -/
theorem Stuck.behind (he : e.place = placeOf finish left) (used : List Token) {more : List Kind}
    (hmore : Plain more) (h : H (used.map Token.kind ++ more)) : Stuck finish H (used ++ left) e :=
  ⟨used, left, more, rfl, he, hmore, h⟩

/-! ## Single tokens -/

theorem refuse_eq_error {α : Type} {p : Problem}
    (h : (refuse finish p ts : Except FormatError α) = .error e) : e.place = placeOf finish ts := by
  cases h
  rfl

theorem punct_eq_error {p : Punct} (h : punct finish p ts = .error e) :
    e.place = placeOf finish ts := by
  unfold punct at h
  split at h
  · split at h
    · cases h
    · exact refuse_eq_error h
  · exact refuse_eq_error h

theorem name_eq_error {role : NameRole} (h : name finish role ts = .error e) :
    e.place = placeOf finish ts := by
  unfold name at h
  split at h
  · split at h
    · split at h
      · exact refuse_eq_error h
      · cases h
    · exact refuse_eq_error h
  · exact refuse_eq_error h

theorem terminator_eq_error (h : terminator finish ts = .error e) :
    e.place = placeOf finish ts := by
  unfold terminator at h
  split at h
  · split at h
    · cases h
    · exact refuse_eq_error h
  · cases h

theorem fieldEnd_eq_error (h : fieldEnd finish ts = .error e) : e.place = placeOf finish ts := by
  unfold fieldEnd at h
  split at h
  · split at h
    · cases h
    · cases h
    · exact refuse_eq_error h
  · exact refuse_eq_error h

/-- Behind the first word of a name and a dot, a second word is missing. -/
theorem nameRest_eq_error {first : List Char} (h : nameRest finish first ts = .error e) :
    ∃ dot rest, ts = dot :: rest ∧ dot.kind = .punct .dot ∧ e.place = placeOf finish rest := by
  unfold nameRest at h
  split at h
  · next dot rest =>
    split at h
    · next hdot =>
      rw [bind_eq_error_iff] at h
      rcases h with hname | ⟨_, _, h⟩
      · exact ⟨dot, rest, rfl, hdot, name_eq_error hname⟩
      · cases h
    · cases h
  · cases h

/-- A name is refused behind its dot. -/
theorem nameRest_stuck {t : Token} {first : List Char} (ht : t.kind = .word first)
    (hfirst : isKeyword first = false) (h : nameRest finish first ts = .error e) :
    Stuck finish IsName (t :: ts) e := by
  obtain ⟨dot, rest, rfl, hdot, he⟩ := nameRest_eq_error h
  refine .behind he [t, dot] plain_shortType ?_
  simp only [List.map_cons, List.map_nil, ht, hdot]
  exact .qualified hfirst isKeyword_shortName

end

/-! ## Types and struct bodies -/

section

variable {finish : Place} {n : Nat} {ts left : List Token} {e : FormatError}

/-- What a parser refuses, it refuses where the tokens cannot go on. -/
def StopsAt {α : Type} (finish : Place) (G : List Kind → Prop) (p : Step α) : Prop :=
  ∀ ts e, p ts = .error e → Stuck finish G ts e

/-- The tokens of a type are derived. -/
theorem exists_isType_of_type {x : TypeExpr} (h : type finish n ts = .ok (x, left)) :
    ∃ used, ts = used ++ left ∧ IsType (used.map Token.kind) := by
  obtain ⟨used, rfl, hread⟩ := (type_members_sound finish n).1 _ _ _ h
  exact ⟨used, rfl, isType_of_readsType hread⟩

theorem type_struct_stuck (ih : StopsAt finish IsMembers (members finish n)) {t : Token}
    (ht : t.kind = .word "struct".toList)
    (h : type finish (n + 1) (t :: ts) = .error e) : Stuck finish IsType (t :: ts) e := by
  rw [type_word ht, if_pos rfl] at h
  rw [bind_eq_error_iff] at h
  rcases h with hopen | ⟨⟨_, body⟩, hopen, h⟩
  · refine .behind (punct_eq_error hopen) [t] (.punct .openBrace (.punct .closeBrace .nil)) ?_
    rw [List.map_singleton, ht]
    exact .struct .nil
  · obtain ⟨u, rfl, hu⟩ := punct_eq_ok_iff.mp hopen
    rw [bind_eq_error_iff] at h
    rcases h with hmembers | ⟨_, _, h⟩
    · refine (ih _ _ hmembers).within [t, u] (.punct .closeBrace .nil) fun ks hks => ?_
      simp only [List.map_cons, List.map_nil, ht, hu]
      exact .struct hks
    · cases h

theorem type_interface_stuck {t : Token} (ht : t.kind = .word "interface".toList)
    (h : type finish (n + 1) (t :: ts) = .error e) : Stuck finish IsType (t :: ts) e := by
  rw [type_word ht, if_neg (by decide), if_pos rfl] at h
  rw [bind_eq_error_iff] at h
  rcases h with hopen | ⟨⟨_, rest⟩, hopen, h⟩
  · refine .behind (punct_eq_error hopen) [t] (.punct .openBrace (.punct .closeBrace .nil)) ?_
    rw [List.map_singleton, ht]
    exact .emptyInterface
  · obtain ⟨u, rfl, hu⟩ := punct_eq_ok_iff.mp hopen
    rw [bind_eq_error_iff] at h
    rcases h with hclose | ⟨_, _, h⟩
    · refine .behind (punct_eq_error hclose) [t, u] (.punct .closeBrace .nil) ?_
      simp only [List.map_cons, List.map_nil, ht, hu]
      exact .emptyInterface
    · cases h

/-- A closing bracket and the shortest type. -/
def shortElement : List Kind := .punct .closeBracket :: shortType

theorem plain_shortElement : Plain shortElement := .punct .closeBracket plain_shortType

theorem type_map_stuck (ih : StopsAt finish IsType (type finish n)) {t : Token}
    (ht : t.kind = .word "map".toList)
    (h : type finish (n + 1) (t :: ts) = .error e) : Stuck finish IsType (t :: ts) e := by
  rw [type_word ht, if_neg (by decide), if_neg (by decide), if_pos rfl] at h
  rw [bind_eq_error_iff] at h
  rcases h with hopen | ⟨⟨_, rest⟩, hopen, h⟩
  · refine .behind (punct_eq_error hopen) [t]
      (.punct .openBracket (plain_shortType.append plain_shortElement)) ?_
    rw [List.map_singleton, ht]
    exact .map isType_shortType isType_shortType
  obtain ⟨u, rfl, hu⟩ := punct_eq_ok_iff.mp hopen
  rw [bind_eq_error_iff] at h
  rcases h with hkey | ⟨⟨key, afterKey⟩, hkey, h⟩
  · refine (ih _ _ hkey).within [t, u] plain_shortElement fun ks hks => ?_
    simp only [List.map_cons, List.map_nil, ht, hu]
    exact .map hks isType_shortType
  obtain ⟨keyTokens, rfl, hderived⟩ := exists_isType_of_type hkey
  rw [bind_eq_error_iff] at h
  rcases h with hclose | ⟨⟨_, afterBracket⟩, hclose, h⟩
  · refine .behind (punct_eq_error hclose) (t :: u :: keyTokens) plain_shortElement ?_
    simp only [List.map_cons, ht, hu]
    exact .map hderived isType_shortType
  obtain ⟨v, rfl, hv⟩ := punct_eq_ok_iff.mp hclose
  rw [bind_eq_error_iff] at h
  rcases h with hvalue | ⟨_, _, h⟩
  · have hstuck := (ih _ _ hvalue).within (t :: u :: (keyTokens ++ [v])) .nil fun ks hks => by
      simp only [List.map_cons, List.map_append, List.map_nil, ht, hu, hv, List.append_nil,
        List.append_assoc, List.cons_append, List.nil_append]
      exact IsType.map hderived hks
    simpa using hstuck
  · cases h

/-- A type that starts with a word is refused where it cannot go on. -/
theorem type_word_stuck (ihType : StopsAt finish IsType (type finish n))
    (ihMembers : StopsAt finish IsMembers (members finish n)) {t : Token} {word : List Char}
    (ht : t.kind = .word word) (h : type finish (n + 1) (t :: ts) = .error e) :
    Stuck finish IsType (t :: ts) e := by
  by_cases hstruct : word = "struct".toList
  · exact type_struct_stuck ihMembers (hstruct ▸ ht) h
  by_cases hinterface : word = "interface".toList
  · exact type_interface_stuck (hinterface ▸ ht) h
  by_cases hmap : word = "map".toList
  · exact type_map_stuck ihType (hmap ▸ ht) h
  rw [type_word ht, if_neg hstruct, if_neg hinterface, if_neg hmap] at h
  split at h
  · exact .here (refuse_eq_error h) plain_shortType isType_shortType
  · next hword =>
    have hstuck := nameRest_stuck ht (eq_false_of_ne_true hword) h
    refine hstuck.within [] .nil fun ks hks => ?_
    rw [List.append_nil]
    exact .name hks

/-- A type that starts with a bracket is refused where it cannot go on. -/
theorem type_bracket_stuck (ih : StopsAt finish IsType (type finish n)) {t : Token}
    (ht : t.kind = .punct .openBracket) (h : type finish (n + 1) (t :: ts) = .error e) :
    Stuck finish IsType (t :: ts) e := by
  have hlength : ∀ {rest : List Token}, e.place = placeOf finish rest →
      Stuck finish IsType (t :: rest) e := by
    intro rest he
    refine .behind he [t] plain_shortElement ?_
    rw [List.map_singleton, ht]
    exact .slice isType_shortType
  rw [type.eq_def] at h
  simp only [ht] at h
  cases ts with
  | nil => exact hlength (refuse_eq_error h)
  | cons u rest =>
    dsimp only at h
    split at h
    · next hu =>
      rw [bind_eq_error_iff] at h
      rcases h with helement | ⟨_, _, h⟩
      · refine (ih _ _ helement).within [t, u] .nil fun ks hks => ?_
        simp only [List.map_cons, List.map_nil, ht, hu, List.append_nil]
        exact .slice hks
      · cases h
    · next digits hu =>
      rw [bind_eq_error_iff] at h
      rcases h with hclose | ⟨⟨_, rest'⟩, hclose, h⟩
      · refine .behind (punct_eq_error hclose) [t, u] plain_shortElement ?_
        simp only [List.map_cons, List.map_nil, ht, hu]
        exact .array isType_shortType
      obtain ⟨v, rfl, hv⟩ := punct_eq_ok_iff.mp hclose
      rw [bind_eq_error_iff] at h
      rcases h with helement | ⟨_, _, h⟩
      · refine (ih _ _ helement).within [t, u, v] .nil fun ks hks => ?_
        simp only [List.map_cons, List.map_nil, ht, hu, hv, List.append_nil]
        exact .array hks
      · cases h
    · exact hlength (refuse_eq_error h)

/-- A field with what comes after it is refused where it cannot go on, if its name and its type
are. -/
theorem fieldWith_stuck (ih : StopsAt finish IsMembers (members finish n)) {t : Token}
    {newlines : Nat} {name : Option (List Char)}
    {read : Except FormatError (TypeExpr × List Token)}
    (hok : ∀ type rest, read = .ok (type, rest) → ∃ used, ts = used ++ rest ∧
      ∀ ls, IsTag ls → IsField (t.kind :: (used.map Token.kind ++ ls)))
    (herror : ∀ e, read = .error e → Stuck finish IsField (t :: ts) e)
    (h : fieldWith finish n newlines name read = .error e) :
    Stuck finish IsMembers (t :: ts) e := by
  unfold fieldWith at h
  rw [bind_eq_error_iff] at h
  rcases h with hread | ⟨⟨type, rest⟩, hread, h⟩
  · refine (herror _ hread).within [] .nil fun ks hks => ?_
    rw [List.append_nil]
    exact .last hks
  obtain ⟨typeTokens, rfl, hfield⟩ := hok _ _ hread
  obtain ⟨tagTokens, hrest, htag⟩ := readsTag_tag rest
  have hderived := hfield _ (isTag_of_readsTag htag)
  have htokens : t :: (typeTokens ++ rest) = (t :: (typeTokens ++ tagTokens)) ++ (tag rest).2 := by
    rw [List.cons_append, List.append_assoc, ← hrest]
  have hkinds : (t :: (typeTokens ++ tagTokens)).map Token.kind =
      t.kind :: (typeTokens.map Token.kind ++ tagTokens.map Token.kind) := by simp
  rw [htokens]
  have hbehind : ∀ {left : List Token}, e.place = placeOf finish left →
      Stuck finish IsMembers ((t :: (typeTokens ++ tagTokens)) ++ left) e := by
    intro left he
    refine .behind he _ .nil ?_
    rw [List.append_nil, hkinds]
    exact .last hderived
  rw [bind_eq_error_iff] at h
  rcases h with hend | ⟨⟨_, afterEnd⟩, hend, h⟩
  · exact hbehind (fieldEnd_eq_error hend)
  rw [bind_eq_error_iff] at h
  rcases h with hmembers | ⟨_, _, h⟩
  · rcases fieldEnd_eq_ok_iff.mp hend with ⟨semicolon, inserted, hafter, hsemicolon⟩ |
      ⟨close, others, hafter, hclose, hsame⟩
    · rw [hafter]
      dsimp only at hmembers
      rcases trailingComment_cases afterEnd with ⟨hcomment, _⟩ |
        ⟨u, us, text, rfl, hu, _, hcomment⟩
      · rw [hcomment] at hmembers
        have hstuck := (ih _ _ hmembers).within (t :: (typeTokens ++ tagTokens) ++ [semicolon])
          .nil fun ks hks => by
            rw [List.map_append, hkinds, List.map_singleton, hsemicolon, List.append_nil,
              List.append_assoc]
            exact IsMembers.field hderived hks
        simpa using hstuck
      · rw [hcomment] at hmembers
        have hstuck := (ih _ _ hmembers).within (t :: (typeTokens ++ tagTokens) ++ [semicolon, u])
          .nil fun ks hks => by
            rw [List.map_append, hkinds, List.map_cons, List.map_singleton, hsemicolon, hu,
              List.append_nil, List.append_assoc]
            exact IsMembers.field hderived (.comment hks)
        simpa using hstuck
    · -- the closing brace is left in place, and only a bound too small refuses it
      cases hsame
      rw [hafter, trailingComment_of_none (.close hclose others)] at hmembers
      rw [hafter]
      cases n with
      | zero => exact hbehind (refuse_eq_error hmembers)
      | succ n =>
        rw [members_close hclose] at hmembers
        cases hmembers
  · cases h

/-- The members of a struct that start with a word are refused where they cannot go on. -/
theorem members_word_stuck (ihType : StopsAt finish IsType (type finish n))
    (ihMembers : StopsAt finish IsMembers (members finish n)) {t : Token} {word : List Char}
    (ht : t.kind = .word word) (h : members finish (n + 1) (t :: ts) = .error e) :
    Stuck finish IsMembers (t :: ts) e := by
  cases hword : isKeyword word with
  | true =>
    rw [members.eq_def] at h
    simp only [ht] at h
    rw [if_pos hword] at h
    exact .here (refuse_eq_error h) .nil .nil
  | false =>
    cases hembedded : isEmbedded ts with
    | true =>
      rw [members_embedded n ht hword hembedded] at h
      refine fieldWith_stuck ihMembers (fun type rest hname => ?_) (fun e hname => ?_) h
      · obtain ⟨used, name, rfl, hread, rfl⟩ := nameRest_sound ht hword hname
        exact ⟨used, rfl, fun ls hls => .embedded (isName_of_readsName hread) hls⟩
      · refine (nameRest_stuck ht hword hname).within [] .nil fun ks hks => ?_
        show IsField (ks ++ [])
        exact .embedded hks .none
    | false =>
      rw [members_named n ht hword hembedded] at h
      refine fieldWith_stuck ihMembers (fun type rest htype => ?_) (fun e htype => ?_) h
      · obtain ⟨used, rfl, hderived⟩ := exists_isType_of_type htype
        refine ⟨used, rfl, fun ls hls => ?_⟩
        rw [ht]
        exact .named hword hderived hls
      · refine (ihType _ _ htype).within [t] .nil fun ks hks => ?_
        rw [List.map_singleton, ht]
        show IsField (.word word :: (ks ++ []))
        exact .named hword hks .none

/-- The members of a struct that start with a star are refused where they cannot go on. -/
theorem members_pointer_stuck (ihType : StopsAt finish IsType (type finish n))
    (ihMembers : StopsAt finish IsMembers (members finish n)) {t : Token}
    (ht : t.kind = .punct .star) (h : members finish (n + 1) (t :: ts) = .error e) :
    Stuck finish IsMembers (t :: ts) e := by
  rw [members_pointer n ht] at h
  refine fieldWith_stuck ihMembers (fun type rest htype => ?_) (fun e htype => ?_) h
  · obtain ⟨⟨target, rest'⟩, htarget, htype⟩ := bind_eq_ok_iff.mp htype
    cases htype
    obtain ⟨used, rfl, hderived⟩ := exists_isType_of_type htarget
    refine ⟨used, rfl, fun ls hls => ?_⟩
    rw [ht]
    exact .pointer hderived hls
  · rw [bind_eq_error_iff] at htype
    rcases htype with htarget | ⟨_, _, htype⟩
    · refine (ihType _ _ htarget).within [t] .nil fun ks hks => ?_
      rw [List.map_singleton, ht]
      show IsField (.punct .star :: (ks ++ []))
      exact .pointer hks .none
    · cases htype

/-- Types and the members of structs are refused where they cannot go on. -/
theorem type_members_stopsAt (finish : Place) (n : Nat) :
    StopsAt finish IsType (type finish n) ∧ StopsAt finish IsMembers (members finish n) := by
  have hereType : ∀ {p : Problem} {ts : List Token} {e : FormatError},
      (refuse finish p ts : Except FormatError (TypeExpr × List Token)) = .error e →
      Stuck finish IsType ts e :=
    fun h => .here (refuse_eq_error h) plain_shortType isType_shortType
  have hereMembers : ∀ {p : Problem} {ts : List Token} {e : FormatError},
      (refuse finish p ts : Except FormatError ((List Member × Nat) × List Token)) = .error e →
      Stuck finish IsMembers ts e :=
    fun h => .here (refuse_eq_error h) .nil .nil
  induction n with
  | zero => exact ⟨fun ts e h => hereType h, fun ts e h => hereMembers h⟩
  | succ n ih =>
    obtain ⟨ihType, ihMembers⟩ := ih
    constructor
    · intro ts e h
      cases ts with
      | nil => exact hereType h
      | cons t rest =>
        cases ht : t.kind with
        | word word => exact type_word_stuck ihType ihMembers ht h
        | punct p =>
          cases p with
          | star =>
            rw [type_star ht] at h
            rw [bind_eq_error_iff] at h
            rcases h with htarget | ⟨_, _, h⟩
            · refine (ihType _ _ htarget).within [t] .nil fun ks hks => ?_
              rw [List.map_singleton, ht, List.append_nil]
              exact .pointer hks
            · cases h
          | openBracket => exact type_bracket_stuck ihType ht h
          | _ =>
            rw [type.eq_def] at h
            simp only [ht] at h
            exact hereType h
        | _ =>
          rw [type.eq_def] at h
          simp only [ht] at h
          exact hereType h
    · intro ts e h
      cases ts with
      | nil => exact hereMembers h
      | cons t rest =>
        cases ht : t.kind with
        | word word => exact members_word_stuck ihType ihMembers ht h
        | comment text =>
          rw [members_comment n ht] at h
          rw [bind_eq_error_iff] at h
          rcases h with hmore | ⟨_, _, h⟩
          · refine (ihMembers _ _ hmore).within [t] .nil fun ks hks => ?_
            rw [List.map_singleton, ht, List.append_nil]
            exact .comment hks
          · cases h
        | punct p =>
          cases p with
          | closeBrace =>
            rw [members_close ht] at h
            cases h
          | star => exact members_pointer_stuck ihType ihMembers ht h
          | _ =>
            rw [members.eq_def] at h
            simp only [ht] at h
            exact hereMembers h
        | _ =>
          rw [members.eq_def] at h
          simp only [ht] at h
          exact hereMembers h

end

/-! ## Files -/

/-- A file, or the rest of one behind its package clause. -/
def IsRest (packaged : Bool) (ks : List Kind) : Prop := if packaged then IsItems ks else IsFile ks

/-- One semicolon is missing at the end of a file, or of the rest of one. -/
def LacksSemicolon (packaged : Bool) (ks : List Kind) : Prop :=
  IsRest packaged (ks ++ [.semicolon false])

/-- The shortest declaration or package clause without its semicolon. -/
def shortItem (packaged : Bool) : List Kind :=
  if packaged then .word "type".toList :: .word shortName :: shortType
  else [.word "package".toList, .word shortName]

theorem plain_shortItem (packaged : Bool) : Plain (shortItem packaged) := by
  cases packaged with
  | true => exact .word (by decide) (.word isWord_shortName plain_shortType)
  | false => exact .word (by decide) (.word isWord_shortName .nil)

theorem lacksSemicolon_shortItem (packaged : Bool) :
    LacksSemicolon packaged (shortItem packaged) := by
  cases packaged with
  | true => exact .type isKeyword_shortName isType_shortType .semicolon .nil
  | false => exact .package isKeyword_shortName (by decide) .semicolon .nil

theorem IsRest.comment {packaged : Bool} {text : List Char} {ks : List Kind}
    (h : IsRest packaged ks) : IsRest packaged (.comment text :: ks) := by
  cases packaged with
  | true => exact IsItems.comment h
  | false => exact IsFile.comment h

section

variable {finish : Place} {n : Nat} {packaged : Bool} {ts : List Token} {e : FormatError}

theorem items_stuck_here (he : e.place = placeOf finish ts) :
    Stuck finish (LacksSemicolon packaged) ts e :=
  .here he (plain_shortItem packaged) (lacksSemicolon_shortItem packaged)

/-- After a declaration or the package clause, its end or a later item is refused where the tokens
cannot go on. -/
theorem items_end_stuck
    (ih : ∀ ts e, items finish n true ts = .error e → Stuck finish (LacksSemicolon true) ts e)
    (used : List Token) (hused : ∀ {ks ls : List Kind}, IsEnd ks ls → IsItems ls →
      IsRest packaged (used.map Token.kind ++ ks)) {item : Item}
    (h : (do
        let ended ← terminator finish ts
        let more ← items finish n true ended.2
        return item :: more) = .error e) :
    Stuck finish (LacksSemicolon packaged) (used ++ ts) e := by
  rw [bind_eq_error_iff] at h
  rcases h with hend | ⟨⟨_, left⟩, hend, h⟩
  · refine .behind (terminator_eq_error hend) used .nil ?_
    show IsRest packaged ((_ ++ []) ++ [.semicolon false])
    rw [List.append_nil]
    exact hused .semicolon .nil
  rw [bind_eq_error_iff] at h
  rcases h with hmore | ⟨_, _, h⟩
  · cases terminator_eq_ok_iff.mp hend with
    | finish =>
      -- nothing is missing at the end of the text
      have hnil : items finish n true [] = .ok [] := by cases n <;> rfl
      dsimp only at hmore
      rw [hnil] at hmore
      cases hmore
    | @semicolon t inserted left ht =>
      have hstuck := (ih _ _ hmore).within (H := LacksSemicolon packaged) (used ++ [t]) .nil
        fun ks hks => by
          show IsRest packaged ((_ ++ (ks ++ [])) ++ [.semicolon false])
          rw [List.map_append, List.map_singleton, ht, List.append_nil, List.append_assoc,
            List.append_assoc]
          exact hused .semicolon hks
      simpa using hstuck
  · cases h

/-- The items of a file are refused where they cannot go on. -/
theorem items_stopsAt {finish : Place} {n : Nat} {packaged : Bool} {ts : List Token}
    {e : FormatError} (h : items finish n packaged ts = .error e) :
    Stuck finish (LacksSemicolon packaged) ts e := by
  induction n generalizing packaged ts e with
  | zero =>
    cases ts with
    | nil =>
      cases packaged with
      | true => cases h
      | false => exact items_stuck_here (refuse_eq_error h)
    | cons t rest => cases packaged <;> exact items_stuck_here (refuse_eq_error h)
  | succ n ih =>
    cases ts with
    | nil =>
      cases packaged with
      | true => cases h
      | false => exact items_stuck_here (refuse_eq_error h)
    | cons t rest =>
      cases ht : t.kind with
      | comment text =>
        rw [items_comment ht] at h
        cases hmore : items finish n packaged rest with
        | ok more => rw [hmore] at h; cases h
        | error e' =>
          rw [hmore] at h
          cases h
          refine (ih hmore).within [t] .nil fun ks hks => ?_
          rw [List.map_singleton, ht, List.append_nil]
          exact IsRest.comment hks
      | word word =>
        by_cases hpackage : word = "package".toList ∧ packaged = false
        · obtain ⟨rfl, rfl⟩ := hpackage
          rw [items_clause ht, bind_eq_error_iff] at h
          rcases h with hname | ⟨⟨name, afterName⟩, hname, h⟩
          · refine .behind (name_eq_error hname) [t] plain_shortType ?_
            rw [List.map_singleton, ht]
            exact lacksSemicolon_shortItem false
          obtain ⟨u, rfl, hu, hkeyword⟩ := name_eq_ok_iff.mp hname
          split at h
          · exact items_stuck_here (refuse_eq_error h)
          · next hvalid =>
            have hblank : name ≠ ['_'] := by
              rintro rfl
              exact hvalid rfl
            refine items_end_stuck (fun _ _ => ih) [t, u] (fun hend hmore => ?_) h
            simp only [List.map_cons, List.map_nil, ht, hu]
            exact IsFile.package hkeyword hblank hend hmore
        · by_cases htype : word = "type".toList ∧ packaged = true
          · obtain ⟨rfl, rfl⟩ := htype
            rw [items_type ht, bind_eq_error_iff] at h
            rcases h with hname | ⟨⟨name, afterName⟩, hname, h⟩
            · refine .behind (name_eq_error hname) [t] (.word isWord_shortName plain_shortType) ?_
              rw [List.map_singleton, ht]
              exact lacksSemicolon_shortItem true
            obtain ⟨u, rfl, hu, hkeyword⟩ := name_eq_ok_iff.mp hname
            rw [bind_eq_error_iff] at h
            rcases h with htype | ⟨⟨type, afterType⟩, htype, h⟩
            · refine ((type_members_stopsAt finish n).1 _ _ htype).within [t, u] .nil
                fun ks hks => ?_
              show IsItems ((_ ++ (ks ++ [])) ++ [.semicolon false])
              simp only [List.map_cons, List.map_nil, ht, hu, List.append_nil]
              exact .type hkeyword hks .semicolon .nil
            · obtain ⟨used, rfl, hderived⟩ := exists_isType_of_type htype
              refine items_end_stuck (fun _ _ => ih) (t :: u :: used) (fun hend hmore => ?_) h
              simp only [List.map_cons, ht, hu]
              exact IsItems.type hkeyword hderived hend hmore
          · rw [items.eq_def] at h
            simp only [ht] at h
            rw [if_neg hpackage, if_neg htype] at h
            exact items_stuck_here (refuse_eq_error h)
      | _ =>
        rw [items.eq_def] at h
        simp only [ht] at h
        exact items_stuck_here (refuse_eq_error h)

end

end Parse

end SchemaToGo.Go
