import SchemaToGo.Proofs.Json.Container
import SchemaToGo.Proofs.Json.Returns
import Mathlib.Data.Option.Defs
set_option autoImplicit false

/-!
# How values are read

Reading a value gives what its tree says: passing over it always succeeds, and reading it whole
gives a value if every literal in it has one and its nesting leaves room.
-/

namespace SchemaToGo.Json

/-! ## What trees say -/

namespace Tree

/-- A member with the value that its key stands for and what `f` makes of its tree. -/
def member? {α : Type} (f : Tree → Option α) (m : Option String × Tree) : Option (String × α) :=
  m.1.bind fun key => (f m.2).map (Prod.mk key)

/-- The value of a tree, when `inner` gives the values inside.  Without `inner` there is no room for
arrays and objects. -/
def valueWith? (inner : Option (Tree → Option Value)) : Tree → Option Value
  | null => some .null
  | bool b => some (.bool b)
  | number n => n.map .number
  | string s => s.map .string
  | array ts => inner.bind fun f => (ts.mapM f).map .array
  | object ms => inner.bind fun f => (ms.mapM (member? f)).map .object

/-- The value of a tree with room for so many arrays and objects inside each other. -/
def value? : Nat → Tree → Option Value
  | 0 => valueWith? none
  | room + 1 => valueWith? (some (value? room))

/-- A reading of trees in which `null` counts as absent. -/
def unlessNull? {α : Type} (f : Tree → Option α) : Tree → Option (Option α)
  | null => some none
  | t => (f t).map some

/-- The text that a tree is. -/
def text? : Tree → Option String
  | string s => s
  | _ => none

/-- The list that a tree is.  Without `f` there is no room for one. -/
def list? {α : Type} (f : Option (Tree → Option α)) : Tree → Option (List α)
  | array ts => f.bind fun f => ts.mapM f
  | _ => none

end Tree

namespace Reader

variable {α : Type} {limit bound : Nat}

/-! ## Values passed over -/

/-- Values are passed over whatever they are. -/
theorem skipValue_reads {depth : Nat} (hdepth : depth ≤ bound) :
    ReadsAs (skipValue bound depth) (fun _ => some ()) depth := by
  induction depth with
  | zero =>
    intro t bs htext hlength
    obtain ⟨x, tail, rfl, _⟩ := htext.exists_cons
    exact absurd hlength (Nat.not_succ_le_zero _)
  | succ depth ih =>
    have ih := ih (Nat.le_of_succ_le hdepth)
    intro t bs htext hlength blanks rest hblanks hrest
    unfold skipValue
    cases htext with
    | nullName => exact Reads.token hblanks (by decide) (Reads.eat (Reads.nameRest _ rest))
    | trueName => exact Reads.token hblanks (by decide) (Reads.eat (Reads.nameRest _ rest))
    | falseName => exact Reads.token hblanks (by decide) (Reads.eat (Reads.nameRest _ rest))
    | number h =>
      refine Reads.numberToken h hblanks fun x hx => ?_
      dsimp only
      rw [if_neg (ne_of_startsNumber hx (by decide) (by decide)),
        if_neg (ne_of_startsNumber hx (by decide) (by decide)),
        if_neg (ne_of_startsNumber hx (by decide) (by decide)), if_pos hx]
      exact skipNumber_reads h hrest
    | string h =>
      obtain ⟨hcharacters⟩ := h
      rw [length_quoted] at hlength
      rw [quoted_append]
      refine Reads.token hblanks (by decide) (Reads.eat ?_)
      exact skipStringRest_reads hcharacters (by omega) rest
    | array h =>
      have hlength := Nat.le_of_succ_le_succ hlength
      refine Reads.token hblanks (by decide) (Reads.eat ?_)
      exact skipElements_reads ih h hlength (by omega) rest
    | object h =>
      have hlength := Nat.le_of_succ_le_succ hlength
      refine Reads.token hblanks (by decide) (Reads.eat ?_)
      exact skipMembers_reads ih h hlength (by omega) rest

/-! ## Values read whole -/

/-- Members are put behind one another in the order of the text. -/
theorem foldMembers?_append {f : Tree → Option α} (ms : List (Option String × Tree))
    (acc : List (String × α)) :
    foldMembers? id (fun acc key t => (f t).map fun a => acc ++ [(key, a)]) acc ms =
      (ms.mapM (Tree.member? f)).map (acc ++ ·) := by
  unfold foldMembers?
  induction ms generalizing acc with
  | nil => exact congrArg some (List.append_nil acc).symm
  | cons m ms ih =>
    obtain ⟨key, t⟩ := m
    rw [List.foldlM_cons, List.mapM_cons]
    cases key with
    | none => rfl
    | some key =>
      dsimp only [Tree.member?, id, Option.bind_some]
      cases f t with
      | none => rfl
      | some a =>
        refine (ih (acc ++ [(key, a)])).trans ?_
        cases ms.mapM (Tree.member? f) with
        | none => rfl
        | some more => exact congrArg some (List.append_assoc acc [(key, a)] more)

theorem valueWith_reads {inner : Option (Reader Value)} {f : Option (Tree → Option Value)}
    (hinner : Option.Rel (fun item f => ReadsAs item f bound) inner f) :
    ReadsAs (valueWith bound inner) (Tree.valueWith? f) bound := by
  intro t bs htext hlength blanks rest hblanks hrest
  unfold valueWith
  cases htext with
  | nullName =>
    refine Reads.token hblanks (by decide) (Reads.eat ?_)
    exact (Reads.nameRest _ rest).bind_some (.pure Value.null rest)
  | trueName =>
    refine Reads.token hblanks (by decide) (Reads.eat ?_)
    exact (Reads.nameRest _ rest).bind_some (.pure (Value.bool true) rest)
  | falseName =>
    refine Reads.token hblanks (by decide) (Reads.eat ?_)
    exact (Reads.nameRest _ rest).bind_some (.pure (Value.bool false) rest)
  | number h =>
    refine Reads.numberToken h hblanks fun x hx => ?_
    dsimp only
    rw [if_neg (ne_of_startsNumber hx (by decide) (by decide)),
      if_neg (ne_of_startsNumber hx (by decide) (by decide)),
      if_neg (ne_of_startsNumber hx (by decide) (by decide)), if_pos hx]
    exact (number_reads h hrest).map Value.number
  | string h =>
    obtain ⟨hcharacters⟩ := h
    rw [length_quoted] at hlength
    have hread := @stringRest_reads _ hcharacters bound (by omega) rest
    rw [quoted_append]
    exact Reads.token hblanks (by decide) (Reads.eat (hread.map Value.string))
  | array h =>
    have hlength := Nat.le_of_succ_le hlength
    refine Reads.token hblanks (by decide) ?_
    cases hinner with
    | none => exact .failNext _
    | some hitem => exact Reads.eat ((elements_reads hitem h hlength hlength rest).map Value.array)
  | @object ms _ h =>
    have hlength := Nat.le_of_succ_le hlength
    refine Reads.token hblanks (by decide) ?_
    cases hinner with
    | none => exact .failNext _
    | @some item f hitem =>
      refine Reads.eat ?_
      have hmember : MemberReadsAs
          (fun ms key => do
            colon
            return ms ++ [(key, ← item)])
          (fun ms key t => (f t).map fun v => ms ++ [(key, v)]) bound := by
        intro ms key t bs htext hlength blanks blanks' rest hblanks hblanks' hrest
        exact colon_reads hblanks ((hitem htext hlength hblanks' hrest).map _)
      have hread := members_reads hmember h hlength hlength [] rest
      rw [foldMembers?_append] at hread
      simp only [List.nil_append, Option.map_id'] at hread
      exact hread.map Value.object

theorem value_reads (bound room : Nat) : ReadsAs (value bound room) (Tree.value? room) bound := by
  induction room with
  | zero => exact valueWith_reads .none
  | succ room ih => exact valueWith_reads (.some ih)

/-! ## Values of one kind -/

theorem refuseKind_fails (wanted : Wanted) (bs rest : List UInt8) :
    Reads (refuseKind bound wanted : Reader α) bs none rest := by
  refine .of_error fun c => ?_
  cases hrun : (refuseKind bound wanted : Reader α) c with
  | error e => exact ⟨e, rfl⟩
  | ok x => exact (Returns.refuseKind (fun _ => False) bound wanted c x.1 x.2 hrun).elim

theorem nullable_reads {item : Reader α} {f : Tree → Option α} (hitem : ReadsAs item f limit) :
    ReadsAs (nullable item) (Tree.unlessNull? f) limit := by
  intro t bs htext hlength blanks rest hblanks hrest
  have hread := hitem htext hlength .nil hrest
  unfold nullable
  cases htext with
  | nullName =>
    refine Reads.token hblanks (by decide) (Reads.eat ?_)
    exact (Reads.nameRest _ rest).bind_some (.pure none rest)
  | number h =>
    refine Reads.numberToken h hblanks fun x hx => ?_
    rw [if_neg fun hn => ne_of_startsNumber hx (by decide) (by decide) (Option.some.inj hn)]
    exact hread.map some
  | string h =>
    obtain ⟨_⟩ := h
    exact Reads.token hblanks (by decide) (hread.map some)
  | _ => exact Reads.token hblanks (by decide) (hread.map some)

theorem text_reads : ReadsAs (text bound) Tree.text? bound := by
  intro t bs htext hlength blanks rest hblanks hrest
  unfold text
  cases htext with
  | string h =>
    obtain ⟨hcharacters⟩ := h
    rw [length_quoted] at hlength
    have hread := @stringRest_reads _ hcharacters bound (by omega) rest
    rw [quoted_append]
    exact Reads.token hblanks (by decide) (Reads.eat hread)
  | number h =>
    refine Reads.numberToken h hblanks fun x hx => ?_
    dsimp only
    rw [if_neg (ne_of_startsNumber hx (by decide) (by decide))]
    exact refuseKind_fails _ _ _
  | _ => exact Reads.token hblanks (by decide) (refuseKind_fails _ _ _)

theorem list_reads {item : Option (Reader α)} {f : Option (Tree → Option α)}
    (hitem : Option.Rel (fun item f => ReadsAs item f bound) item f) :
    ReadsAs (list bound item) (Tree.list? f) bound := by
  intro t bs htext hlength blanks rest hblanks hrest
  unfold list
  cases htext with
  | array h =>
    have hlength := Nat.le_of_succ_le hlength
    refine Reads.token hblanks (by decide) ?_
    cases hitem with
    | none => exact .failNext _
    | some hitem => exact Reads.eat (elements_reads hitem h hlength hlength rest)
  | number h =>
    refine Reads.numberToken h hblanks fun x hx => ?_
    dsimp only
    rw [if_neg (ne_of_startsNumber hx (by decide) (by decide))]
    exact refuseKind_fails _ _ _
  | string h =>
    obtain ⟨_⟩ := h
    exact Reads.token hblanks (by decide) (refuseKind_fails _ _ _)
  | _ => exact Reads.token hblanks (by decide) (refuseKind_fails _ _ _)

end Reader

end SchemaToGo.Json
