import SchemaToGo.Proofs.Naming
import SchemaToGo.Proofs.Workshop.Run
set_option autoImplicit false

/-!
# Promised types

A name is taken before the type that it names is declared, and other types refer to it in between.
Such a name is promised.  The names of all types that are declared or promised are pairwise
distinct, and types refer to nothing else: `Workshop.Sound`.  Work that succeeds keeps this, so when
all promises have been kept every reference leads to a declared type, and no type has taken the
place of another one.
-/

namespace SchemaToGo

/-! ## Headings -/

/-- A name and what it is, or is going to be, the name of. -/
structure Heading where
  name : String
  isStruct : Bool
  deriving DecidableEq

/-- What a declared type is announced by. -/
def Declaration.heading : Declaration → Heading
  | .struct s => ⟨s.name, true⟩
  | .alias a => ⟨a.name, false⟩

@[simp] theorem Declaration.name_heading (e : Declaration) : e.heading.name = e.name := by
  cases e <;> rfl

/-- What a target is announced by. -/
def Target.heading (t : Target) : Heading := ⟨t.name, t.isStruct⟩

/-! ## Types that refer to known types -/

/-- The type refers to known types only, to structs as structs and to aliases as aliases. -/
def GoType.Refers (known : List Heading) : GoType → Prop
  | .struct name => ⟨name, true⟩ ∈ known
  | .named name => ⟨name, false⟩ ∈ known
  | .list element => element.Refers known
  | .dictionary value => value.Refers known
  | _ => True

theorem GoType.Refers.mono {known known' : List Heading} (hsub : known ⊆ known') {t : GoType}
    (h : t.Refers known) : t.Refers known' := by
  induction t with
  | struct name => exact hsub h
  | named name => exact hsub h
  | list element ih => exact ih h
  | dictionary value ih => exact ih h
  | _ => trivial

/-- The text is that of a type that refers to known types only. -/
def Typed (known : List Heading) (text : String) : Prop :=
  ∃ t : GoType, text = t.toText ∧ t.Refers known

theorem Typed.mono {known known' : List Heading} (hsub : known ⊆ known') {text : String}
    (h : Typed known text) : Typed known' text := by
  obtain ⟨t, htext, ht⟩ := h
  exact ⟨t, htext, ht.mono hsub⟩

/-- Every field stands under its own name, which is a word, and has a known type. -/
structure Struct.Sound (known : List Heading) (s : Struct) : Prop where
  keyed : ∀ e ∈ s.fields.entries, e.2.name = e.1
  word : ∀ f ∈ s.fields.values, Naming.IsWord f.name
  typed : ∀ f ∈ s.fields.values, Typed known f.type

theorem Struct.Sound.mono {known known' : List Heading} (hsub : known ⊆ known') {s : Struct}
    (h : s.Sound known) : s.Sound known' :=
  ⟨h.keyed, h.word, fun f hf => (h.typed f hf).mono hsub⟩

theorem Struct.Sound.insertField {known : List Heading} {s : Struct} (h : s.Sound known)
    {f : Field} (hword : Naming.IsWord f.name) (htyped : Typed known f.type) :
    (s.insertField f).Sound known := by
  refine ⟨fun e he => ?_, fun g hg => ?_, fun g hg => ?_⟩
  · rcases Dict.mem_of_mem_insert he with rfl | he
    · rfl
    · exact h.keyed e he
  · rcases Dict.mem_values_of_mem_insert hg with rfl | hg
    · exact hword
    · exact h.word g hg
  · rcases Dict.mem_values_of_mem_insert hg with rfl | hg
    · exact htyped
    · exact h.typed g hg

/-- A declared type is made of known types. -/
def Declaration.Sound (known : List Heading) : Declaration → Prop
  | .struct s => s.Sound known
  | .alias a => Typed known a.type

theorem Declaration.Sound.mono {known known' : List Heading} (hsub : known ⊆ known')
    {e : Declaration} (h : e.Sound known) : e.Sound known' := by
  cases e with
  | struct s => exact Struct.Sound.mono hsub h
  | «alias» a => exact Typed.mono hsub h

/-! ## Sound workshops -/

namespace Workshop

/-- What is declared or promised. -/
def known (w : Workshop) (promised : List Heading) : List Heading :=
  w.made.map Declaration.heading ++ promised

theorem known_nil (w : Workshop) : w.known [] = w.made.map Declaration.heading :=
  List.append_nil _

/-- Declared and promised names are distinct words and taken, and types refer to them only. -/
structure Sound (w : Workshop) (promised : List Heading) : Prop where
  distinct : ((w.known promised).map Heading.name).Nodup
  reserved : ∀ h ∈ w.known promised, h.name ∈ w.reserved
  words : ∀ name ∈ w.reserved, Naming.IsWord name
  made : ∀ e ∈ w.made, e.Sound (w.known promised)
  underWay : ∀ e ∈ w.underWay, ⟨e.2, true⟩ ∈ w.known promised

theorem Sound.empty : Workshop.empty.Sound [] := by
  refine ⟨?_, ?_, ?_, ?_, ?_⟩ <;> simp [Workshop.empty, known]

/-- Types have been declared and names taken since then, and the same structs are under way. -/
structure Grown (w w' : Workshop) : Prop where
  made : w.made <:+ w'.made
  reserved : w.reserved <:+ w'.reserved
  underWay : w'.underWay = w.underWay

theorem Grown.refl (w : Workshop) : w.Grown w := ⟨List.suffix_rfl, List.suffix_rfl, rfl⟩

theorem Grown.trans {w w' w'' : Workshop} (h : w.Grown w') (h' : w'.Grown w'') : w.Grown w'' :=
  ⟨h.made.trans h'.made, h.reserved.trans h'.reserved, h'.underWay.trans h.underWay⟩

theorem Grown.known_subset {w w' : Workshop} (h : w.Grown w') (promised : List Heading) :
    w.known promised ⊆ w'.known promised := by
  intro x hx
  rcases List.mem_append.mp hx with hx | hx
  · exact List.mem_append_left _ (List.map_subset _ h.made.subset hx)
  · exact List.mem_append_right _ hx

/-- Taking a free name for a type promises that type. -/
theorem Sound.reserve {w : Workshop} {promised : List Heading} (h : w.Sound promised)
    {base : String} (hbase : Naming.IsWord base) (isStruct : Bool) :
    ({ w with reserved := Naming.freeName w.reserved base :: w.reserved } : Workshop).Sound
      (⟨Naming.freeName w.reserved base, isStruct⟩ :: promised) := by
  have hfree := Naming.freeName_not_mem w.reserved base
  have hword := Naming.isWord_freeName hbase w.reserved
  generalize Naming.freeName w.reserved base = name at hfree hword
  have hperm : (w.known (⟨name, isStruct⟩ :: promised)).Perm
      (⟨name, isStruct⟩ :: w.known promised) := List.perm_middle
  have hsub : w.known promised ⊆ w.known (⟨name, isStruct⟩ :: promised) :=
    fun x hx => hperm.mem_iff.mpr (List.mem_cons_of_mem _ hx)
  refine ⟨?_, fun x hx => ?_, fun x hx => ?_, fun e he => (h.made e he).mono hsub,
    fun e he => hsub (h.underWay e he)⟩
  · refine (hperm.map Heading.name).nodup_iff.mpr (List.nodup_cons.mpr ⟨fun hmem => ?_, h.distinct⟩)
    obtain ⟨x, hx, hname⟩ := List.mem_map.mp hmem
    have hreserved : x.name ∈ w.reserved := h.reserved x hx
    rw [show x.name = name from hname] at hreserved
    exact hfree hreserved
  · rcases List.mem_cons.mp (hperm.mem_iff.mp hx) with rfl | hx
    · exact List.mem_cons_self
    · exact List.mem_cons_of_mem _ (h.reserved x hx)
  · rcases List.mem_cons.mp hx with rfl | hx
    · exact hword
    · exact h.words x hx

/-- Declaring a promised type keeps the promise. -/
theorem Sound.declare {w : Workshop} {promised : List Heading} {e : Declaration}
    (h : w.Sound (e.heading :: promised)) (he : e.Sound (w.known (e.heading :: promised))) :
    ({ w with made := e :: w.made } : Workshop).Sound promised := by
  have hperm : (w.known (e.heading :: promised)).Perm
      (({ w with made := e :: w.made } : Workshop).known promised) := List.perm_middle
  have hsub := hperm.subset
  refine ⟨(hperm.map Heading.name).nodup_iff.mp h.distinct,
    fun x hx => h.reserved x (hperm.mem_iff.mpr hx), h.words, fun e' he' => ?_,
    fun e' he' => hsub (h.underWay e' he')⟩
  rcases List.mem_cons.mp he' with rfl | he'
  · exact he.mono hsub
  · exact (h.made e' he').mono hsub

/-- What is under way has been promised. -/
theorem Sound.enter {w : Workshop} {promised : List Heading} (h : w.Sound promised)
    {name : String} (hname : ⟨name, true⟩ ∈ w.known promised) (path : Path) :
    (w.enter path name).Sound promised := by
  refine ⟨h.distinct, h.reserved, h.words, h.made, fun e he => ?_⟩
  rcases List.mem_cons.mp he with rfl | he
  · exact hname
  · exact h.underWay e he

theorem Sound.leave {w : Workshop} {promised : List Heading} (h : w.Sound promised) (path : Path) :
    (w.leave path).Sound promised :=
  ⟨h.distinct, h.reserved, h.words, h.made,
    fun e he => h.underWay e (List.mem_of_mem_filter he)⟩

end Workshop

end SchemaToGo
