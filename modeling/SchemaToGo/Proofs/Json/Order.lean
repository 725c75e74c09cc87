import SchemaToGo.Proofs.Json.Value
import Mathlib.Data.List.Pairwise
import Mathlib.Data.List.Perm.Basic
set_option autoImplicit false

/-!
# The order of members

What does not change when two members of one object change places, and not when a value inside
changes to one that it cannot tell apart, does not depend on the order of members anywhere in a
value.  Taking members in turn is such a thing, if the members of different keys do not get into
each other's way.
-/

namespace SchemaToGo.Json

open Reader

/-! ## One place of a list -/

section

variable {α β σ κ μ : Type}

theorem rel_trans {R : α → α → Prop} {x y z : Option α} (h : Option.Rel R x y)
    (h' : Option.Rel R y z) (hR : ∀ {a b c}, R a b → R b c → R a c) : Option.Rel R x z := by
  cases h with
  | none => exact h'
  | some hab =>
    cases h' with
    | some hbc => exact .some (hR hab hbc)

theorem rel_map {R : α → α → Prop} {S : β → β → Prop} {f : α → β} {x y : Option α}
    (h : Option.Rel R x y) (hS : ∀ a b, x = some a → R a b → S (f a) (f b)) :
    Option.Rel S (x.map f) (y.map f) := by
  cases h with
  | none => exact .none
  | some h => exact .some (hS _ _ rfl h)

theorem mapM_middle {f : α → Option β} {v w : α} (h : f v = f w) (before after : List α) :
    (before ++ v :: after).mapM f = (before ++ w :: after).mapM f := by
  simp only [List.mapM_append, List.mapM_cons, h]

/-- What is taken from one place changes at that place only. -/
theorem mapM_middle_rel {R : β → β → Prop} {f : α → Option β} {v w : α}
    (h : Option.Rel R (f v) (f w)) (before after : List α) :
    Option.Rel
      (fun bs cs => ∃ left right b c, R b c ∧ bs = left ++ b :: right ∧ cs = left ++ c :: right)
      ((before ++ v :: after).mapM f) ((before ++ w :: after).mapM f) := by
  simp only [List.mapM_append, List.mapM_cons]
  cases before.mapM f with
  | none => exact .none
  | some left =>
    generalize f v = v', f w = w' at h
    cases h with
    | none => exact .none
    | @some b c hbc =>
      cases after.mapM f with
      | none => exact .none
      | some right => exact .some ⟨left, right, b, c, hbc, rfl, rfl⟩

/-- What is taken from the elements of a list stands in their order. -/
theorem mapM_perm (f : α → Option β) {as bs : List α} (h : as.Perm bs) :
    Option.Rel List.Perm (as.mapM f) (bs.mapM f) := by
  induction h with
  | nil => exact .some (.refl [])
  | @cons a as bs _ ih =>
    simp only [List.mapM_cons]
    cases f a with
    | none => exact .none
    | some b =>
      generalize as.mapM f = x, bs.mapM f = y at ih
      cases ih with
      | none => exact .none
      | some h => exact .some (h.cons b)
  | swap a a' as =>
    simp only [List.mapM_cons]
    cases f a with
    | none =>
      cases f a' with
      | none => exact .none
      | some _ => exact .none
    | some b =>
      cases f a' with
      | none => exact .none
      | some b' =>
        cases as.mapM f with
        | none => exact .none
        | some bs => exact .some (.swap b b' bs)
  | trans _ _ ih ih' => exact rel_trans ih ih' .trans

/-! ## Members taken in turn -/

variable {key? : κ → Option String} {g : σ → String → μ → Option σ}

theorem foldMembers?_middle {v w : μ} (h : ∀ s key, g s key v = g s key w)
    (before after : List (κ × μ)) (key : κ) (s : σ) :
    foldMembers? key? g s (before ++ (key, v) :: after) =
      foldMembers? key? g s (before ++ (key, w) :: after) := by
  simp only [foldMembers?, List.foldlM_append, List.foldlM_cons, h]

/-- If no key occurs twice, a key has one member. -/
theorem eq_of_key?_eq {ms : List (κ × μ)} (hkeys : (ms.filterMap fun m => key? m.1).Nodup)
    {m n : κ × μ} (hm : m ∈ ms) (hn : n ∈ ms) {key : String} (hmkey : key? m.1 = some key)
    (hnkey : key? n.1 = some key) : m = n := by
  let R (m n : κ × μ) : Prop := ∀ key, key? m.1 = some key → key? n.1 = some key → m = n
  have : Std.Symm R := ⟨fun m n h key hn hm => (h key hm hn).symm⟩
  have hR : ms.Pairwise R := (List.pairwise_filterMap.mp hkeys).imp fun h key hm hn =>
    absurd rfl (h key hm key hn)
  exact hR.forall_of_forall (fun m _ _ _ _ => rfl) hm hn key hmkey hnkey

/-- Members are taken in any order, if members of different keys can be taken in any order and no
key occurs twice. -/
theorem foldMembers?_perm
    (hcomm : ∀ s key v key' v', key ≠ key' →
      (g s key v).bind (fun s => g s key' v') = (g s key' v').bind fun s => g s key v)
    {ms ns : List (κ × μ)} (hkeys : (ms.filterMap fun m => key? m.1).Nodup) (h : ms.Perm ns)
    (s : σ) : foldMembers? key? g s ms = foldMembers? key? g s ns := by
  unfold foldMembers?
  rw [List.foldlM_eq_foldl, List.foldlM_eq_foldl]
  refine h.foldl_eq' (fun m hm n hn o => ?_) (some s)
  cases o with
  | none => rfl
  | some s =>
    show ((key? m.1).bind fun key => g s key m.2).bind
        (fun s => (key? n.1).bind fun key => g s key n.2) =
      ((key? n.1).bind fun key => g s key n.2).bind
        fun s => (key? m.1).bind fun key => g s key m.2
    cases hm' : key? m.1 with
    | none => exact (Option.bind_fun_none _).symm
    | some key =>
      cases hn' : key? n.1 with
      | none => exact Option.bind_fun_none _
      | some key' =>
        by_cases hkey : key = key'
        · cases hkey
          rw [eq_of_key?_eq hkeys hm hn hm' hn']
        · exact hcomm s key m.2 key' n.2 hkey

/-! ## What does not depend on the order -/

/-- Everything that is related is taken for the same. -/
def Respects (R : α → α → Prop) (f : α → β) : Prop := ∀ ⦃v w⦄, R v w → f v = f w

/-- It is enough to look at one object whose members change places, and at one value that changes
inside an array or an object. -/
theorem respects_reorderedBy {array : List α → α} {object : List (κ × α) → α} {f : α → β}
    (hmembers : ∀ ms ns : List (κ × α), (ms.filterMap fun m => key? m.1).Nodup → ms.Perm ns →
      f (object ms) = f (object ns))
    (helement : ∀ (before after : List α) (v w : α), ReorderedBy array object key? v w →
      f (array (before ++ v :: after)) = f (array (before ++ w :: after)))
    (hmember : ∀ (before after : List (κ × α)) (key : κ) (v w : α),
      ReorderedBy array object key? v w →
      f (object (before ++ (key, v) :: after)) = f (object (before ++ (key, w) :: after))) :
    Respects (ReorderedBy array object key?) f := by
  intro v w h
  induction h with
  | refl => rfl
  | trans _ _ ih ih' => exact ih.trans ih'
  | members hkeys h => exact hmembers _ _ hkeys h
  | element before after h _ => exact helement before after _ _ h
  | member before after key h _ => exact hmember before after key _ _ h

/-- What is made of something that does not depend on the order. -/
theorem Respects.map {γ : Type} {array : List α → α} {object : List (κ × α) → α} {f : α → β}
    {h : α → γ} (hf : Respects (ReorderedBy array object key?) f) (make : β → γ)
    (harray : ∀ vs, h (array vs) = make (f (array vs)))
    (hobject : ∀ ms, h (object ms) = make (f (object ms))) :
    Respects (ReorderedBy array object key?) h :=
  respects_reorderedBy
    (fun ms ns hkeys hperm => by rw [hobject, hobject, hf (.members hkeys hperm)])
    (fun before after v w hvw => by rw [harray, harray, hf (.element before after hvw)])
    fun before after key v w hvw => by rw [hobject, hobject, hf (.member before after key hvw)]

/-- What is the same for all arrays and objects. -/
theorem respects_of_const {array : List α → α} {object : List (κ × α) → α} {f : α → β} {b : β}
    (harray : ∀ vs, f (array vs) = b) (hobject : ∀ ms, f (object ms) = b) :
    Respects (ReorderedBy array object key?) f :=
  Respects.map (fun _ _ _ => rfl : Respects _ fun _ => b) id harray hobject

end

/-! ## Values of reordered trees -/

/-- The second value is the first one up to the order of members within objects. -/
def Value.Reordered : Value → Value → Prop := ReorderedBy array object some

/-- The keys of a value's members are what the keys of the tree stand for. -/
theorem keys_of_mapM {α : Type} {f : Tree → Option α} {ms : List (Option String × Tree)}
    {as : List (String × α)} (h : ms.mapM (Tree.member? f) = some as) :
    (as.filterMap fun m => some m.1) = ms.filterMap fun m => id m.1 := by
  induction ms generalizing as with
  | nil =>
    cases h
    rfl
  | cons m ms ih =>
    obtain ⟨key, t⟩ := m
    rw [List.mapM_cons] at h
    obtain ⟨a, hfirst, h⟩ := Option.bind_eq_some_iff.mp h
    obtain ⟨more, hmore, h⟩ := Option.bind_eq_some_iff.mp h
    obtain ⟨key, rfl, hvalue⟩ := Option.bind_eq_some_iff.mp hfirst
    obtain ⟨b, _, rfl⟩ := Option.map_eq_some_iff.mp hvalue
    cases h
    exact congrArg (key :: ·) (ih hmore)

/-- Reordered trees have values, if they have any, that are reordered in the same way. -/
theorem value?_reordered {t u : Tree} (h : t.Reordered u) (room : Nat) :
    Option.Rel Value.Reordered (t.value? room) (u.value? room) := by
  induction h generalizing room with
  | refl t =>
    cases t.value? room with
    | none => exact .none
    | some v => exact .some (.refl v)
  | trans _ _ ih ih' => exact rel_trans (ih room) (ih' room) .trans
  | members hkeys h =>
    cases room with
    | zero => exact .none
    | succ room =>
      refine rel_map (mapM_perm (Tree.member? (Tree.value? room)) h) fun vs ws hvs h => ?_
      exact .members (by rw [keys_of_mapM hvs]; exact hkeys) h
  | element before after h ih =>
    cases room with
    | zero => exact .none
    | succ room =>
      refine rel_map (mapM_middle_rel (ih room) before after) ?_
      rintro _ _ - ⟨left, right, v, w, h, rfl, rfl⟩
      exact .element left right h
  | @member t u before after key h ih =>
    cases room with
    | zero => exact .none
    | succ room =>
      have hmember : Option.Rel (fun a b => a.1 = b.1 ∧ a.2.Reordered b.2)
          (Tree.member? (Tree.value? room) (key, t))
          (Tree.member? (Tree.value? room) (key, u)) := by
        cases key with
        | none => exact .none
        | some key => exact rel_map (ih room) fun v w _ h => ⟨rfl, h⟩
      refine rel_map (mapM_middle_rel hmember before after) ?_
      rintro _ _ - ⟨left, right, ⟨key, v⟩, ⟨_, w⟩, ⟨rfl, h⟩, rfl, rfl⟩
      exact .member left right key h

end SchemaToGo.Json
