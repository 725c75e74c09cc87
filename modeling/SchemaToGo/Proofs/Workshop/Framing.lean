import SchemaToGo.Proofs.Declarations.Growth
import SchemaToGo.Proofs.Workshop.Fields
set_option autoImplicit false

/-!
# What finding a type leaves alone

A struct is entered while its fields are found, and left again whether they are found or not.  It is
entered only if it is not under way, so leaving it drops no other entry.  Its name is taken before,
so nothing that is declared meanwhile can have it, and declaring the struct in the end replaces
nothing.  Hence finding a type adds to a workshop and changes nothing else in it, on every path:
`typeWithin_framed`.
-/

namespace SchemaToGo

namespace Workshop

/-- All names of declared types are taken. -/
def Named (w : Workshop) : Prop := ∀ x ∈ w.declarations.headings, x.name ∈ w.reserved

/-- No type is declared under the name. -/
def Lacks (w : Workshop) (name : String) : Prop := ∀ x ∈ w.declarations.headings, x.name ≠ name

theorem mem_headings_declare {w : Workshop} {e : Declaration} {x : Heading} :
    x ∈ ({ w with made := e :: w.made } : Workshop).declarations.headings ↔
      x = e.heading ∨ x ∈ w.declarations.headings := by
  unfold declarations
  rw [Declarations.mem_headings_ofInserts, Declarations.mem_headings_ofInserts, List.map_cons,
    List.mem_cons]

/-- The same structs are under way in both workshops, and names have only been taken.  What was
declared is declared still and is the same.  What has been added to that has a name that was taken
meanwhile, or one of `own`. -/
structure Framed (own : List String) (w w' : Workshop) : Prop where
  underWay : w'.underWay = w.underWay
  reserved : w.reserved <:+ w'.reserved
  kept : w.declarations.Within w'.declarations
  added : ∀ x ∈ w'.declarations.headings, x ∈ w.declarations.headings ∨ x.name ∈ own ∨
    x.name ∈ w'.reserved ∧ x.name ∉ w.reserved

namespace Framed

variable {own : List String} {w w' w'' : Workshop}

theorem refl (own : List String) (w : Workshop) : w.Framed own w :=
  ⟨rfl, List.suffix_rfl, .refl _, fun _ hx => .inl hx⟩

theorem trans (h : w.Framed [] w') (h' : w'.Framed own w'') : w.Framed own w'' := by
  refine ⟨h'.underWay.trans h.underWay, h.reserved.trans h'.reserved, h.kept.trans h'.kept,
    fun x hx => ?_⟩
  rcases h'.added x hx with hx | hown | ⟨hx, hnew⟩
  · rcases h.added x hx with hx | hown | ⟨hx, hnew⟩
    · exact .inl hx
    · cases hown
    · exact .inr (.inr ⟨h'.reserved.subset hx, hnew⟩)
  · exact .inr (.inl hown)
  · exact .inr (.inr ⟨hx, fun hmem => hnew (h.reserved.subset hmem)⟩)

theorem mono (h : w.Framed [] w') (own : List String) : w.Framed own w' :=
  h.trans (.refl own w')

theorem named (h : w.Framed [] w') (hw : w.Named) : w'.Named := by
  intro x hx
  rcases h.added x hx with hx | hown | ⟨hx, -⟩
  · exact h.reserved.subset (hw x hx)
  · cases hown
  · exact hx

/-- A name that is taken stays without a type if it has none. -/
theorem lacks (h : w.Framed [] w') {name : String} (hname : name ∈ w.reserved)
    (hlacks : w.Lacks name) : w'.Lacks name := by
  rintro x hx rfl
  rcases h.added x hx with hx | hown | ⟨-, hnew⟩
  · exact hlacks x hx rfl
  · cases hown
  · exact hnew hname

theorem reserve (w : Workshop) (name : String) :
    w.Framed [] { w with reserved := name :: w.reserved } :=
  ⟨rfl, List.suffix_cons _ _, .refl _, fun _ hx => .inl hx⟩

theorem declare {e : Declaration} (h : w.Lacks e.name) :
    w.Framed [e.name] { w with made := e :: w.made } := by
  refine ⟨rfl, List.suffix_rfl, Declarations.within_insert h, fun x hx => ?_⟩
  rcases mem_headings_declare.mp hx with rfl | hx
  · exact .inr (.inl (List.mem_singleton.mpr e.name_heading))
  · exact .inl hx

/-- A struct is entered under a name that has just been taken, and left again. -/
theorem nested {path : Path} {name : String} (hpath : path ∉ w.underWay.map Prod.fst)
    (hname : name ∉ w.reserved)
    (h : ({ w with reserved := name :: w.reserved }.enter path name).Framed [name] w') :
    w.Framed [] (w'.leave path) := by
  refine ⟨underWay_leave hpath h.underWay, (List.suffix_cons _ _).trans h.reserved, h.kept,
    fun x hx => ?_⟩
  rcases h.added x hx with hx | hown | ⟨hx, hnew⟩
  · exact .inl hx
  · rw [List.mem_singleton.mp hown]
    exact .inr (.inr ⟨h.reserved.subset List.mem_cons_self, hname⟩)
  · exact .inr (.inr ⟨hx, fun hmem => hnew (List.mem_cons_of_mem _ hmem)⟩)

end Framed

end Workshop

namespace Work

/-- If the names of declared types are taken, then nothing else happens between the workshops than
that names are taken and types declared under them. -/
def Frames (w w' : Workshop) : Prop := w.Named → w.Framed [] w'

theorem frames_composes : Composes Frames where
  refl w _ := .refl [] w
  trans h h' hw := (h hw).trans (h' ((h hw).named hw))

variable {scope : Scope} {resolve : Resolver}
  (hresolve : ∀ place context, Leads Frames (resolve place context))
include hresolve

theorem makeStruct_framed {w : Workshop} (hw : w.Named) {name : String} (place : Place)
    (hname : name ∈ w.reserved) (hlacks : w.Lacks name) :
    w.Framed [name] (outcome (makeStruct scope resolve name place) w).2 := by
  unfold makeStruct
  rw [outcome_bind, outcome_lift]
  cases Members.ofPlace scope place with
  | error e => exact .refl _ w
  | ok ms =>
    dsimp only
    rw [outcome_bind]
    let start : Struct :=
      { Struct.named name with description := shownDescription place.schema.description }
    have hfields : Leads Frames (ms.properties.entries.foldlM
        (addField scope resolve ms.required) start) :=
      .foldlM frames_composes (fun s e => addField_leads frames_composes hresolve _ s e) _ _
    have hframed := hfields w hw
    cases hrun : outcome (ms.properties.entries.foldlM
        (addField scope resolve ms.required) start) w with
    | mk r w₁ =>
      rw [hrun] at hframed
      cases r with
      | error e => exact hframed.mono [name]
      | ok s =>
        obtain ⟨fs, hgains, -⟩ := addFields_gains hrun
        have hs : (Declaration.struct s).name = name := hgains.name_eq
        -- nothing that was declared for the fields has taken the name of the struct
        have hlacks₁ := hframed.lacks hname hlacks
        rw [← hs] at hlacks₁ ⊢
        exact hframed.trans (.declare hlacks₁)

theorem inlineStruct_frames (place : Place) (context : String) :
    Leads Frames (inlineStruct scope resolve place context) := by
  intro w hw
  unfold inlineStruct
  rw [outcome_bind, outcome_nameUnderWay?]
  dsimp only
  cases hlookup : w.underWay.lookup place.path with
  | some name => exact .refl [] w
  | none =>
    dsimp only
    rw [outcome_bind, outcome_reserve]
    dsimp only
    have hfree := Naming.freeName_not_mem w.reserved (Naming.forType place.schema.title context)
    generalize Naming.freeName _ _ = name at hfree
    let entered : Workshop :=
      { w with reserved := name :: w.reserved }.enter place.path name
    have hentered : entered.Named := (Workshop.Framed.reserve w name).named hw
    have hlacks : entered.Lacks name := fun x hx heq => hfree (heq ▸ hw x hx)
    have hmake : entered.Framed [name] (outcome (makeStruct scope resolve name place) entered).2 :=
      makeStruct_framed hresolve hentered place List.mem_cons_self hlacks
    have hleft := hmake.nested (Workshop.not_mem_underWay hlookup) hfree
    rw [outcome_bind, outcome_within]
    cases hrun : (outcome (makeStruct scope resolve name place) entered).1 with
    | error e => simpa only [entered, hrun] using hleft
    | ok _ => simpa only [entered, hrun, outcome_pure] using hleft

theorem typeWith_frames (place : Place) (context : String) :
    Leads Frames (typeWith scope resolve place context) :=
  typeWith_leads_of_inline frames_composes hresolve
    (inlineStruct_frames hresolve place context)

omit hresolve

theorem typeWithin_frames (scope : Scope) (n : Nat) (place : Place) (context : String) :
    Leads Frames (typeWithin scope n place context) := by
  induction n generalizing place context with
  | zero => exact .throw frames_composes _
  | succ n ih => exact typeWith_frames ih place context

/-- Finding the type of a schema, and making a struct, adds to a workshop and changes nothing else in
it, whether it succeeds or ends in an error: the same structs are under way afterwards, no name is
given back, and every declared type stays as it is.  New types only get names that are taken
meanwhile, but for the struct itself, which gets its own.

This holds with any number of calls inside each other, of which `typeOf` allows as many as there can
be. -/
theorem typeWithin_framed (scope : Scope) (n : Nat) {w : Workshop} (hw : w.Named) :
    (∀ place context, w.Framed [] (outcome (typeWithin scope n place context) w).2) ∧
    ∀ place name, name ∈ w.reserved → w.Lacks name →
      w.Framed [name] (outcome (makeStruct scope (typeWithin scope n) name place) w).2 := by
  constructor
  · intro place context
    exact typeWithin_frames scope n place context w hw
  · intro place name hname hlacks
    exact makeStruct_framed (typeWithin_frames scope n) hw place hname hlacks

/-! ## On every path -/

/-- Nested structs, and after them a reference that leads nowhere. -/
def nest : Document where
  name := "nest.json"
  schema := { Schema.empty with
    properties := some [
      ("inner", { Schema.empty with
        properties := some [("deep", { Schema.empty with properties := some [] })] }),
      ("way", { Schema.empty with ref := some "#/definitions/none" })] }

/-- A workshop in which a struct is under way and an alias is declared. -/
def halfway : Workshop where
  made := [.alias ⟨"Size", "int"⟩]
  reserved := ["Tag", "Link", "Size"]
  underWay := [(["$defs", "tag"], "Tag")]

/-- The nested structs are declared when the reference fails, and nothing is under way any more of
what was begun. -/
theorem typeWithin_framed_nest : halfway.Named ∧
    (∃ e w', outcome (typeOf ⟨nest, ∅⟩ ⟨nest.schema, []⟩ "Nest") halfway = (.error e, w') ∧
      w'.made.map Declaration.name = ["NestInner", "NestInnerDeep", "Size"] ∧
      halfway.Framed [] w') ∧
    "Link" ∈ halfway.reserved ∧ halfway.Lacks "Link" ∧
    ∃ w', outcome (makeStruct ⟨nest, ∅⟩ (typeOf ⟨nest, ∅⟩) "Link" collidingKeys) halfway =
        (.ok (), w') ∧
      w'.made.map Declaration.name = ["Link", "Size"] ∧ halfway.Framed ["Link"] w' := by
  have hnamed : halfway.Named := by
    unfold Workshop.Named
    decide
  have hlacks : halfway.Lacks "Link" := by
    unfold Workshop.Lacks
    decide
  obtain ⟨htype, hstruct⟩ := typeWithin_framed ⟨nest, ∅⟩ nest.walkBound hnamed
  refine ⟨hnamed, ?_, by decide, hlacks, ?_⟩
  · let run := outcome (typeOf ⟨nest, ∅⟩ ⟨nest.schema, []⟩ "Nest") halfway
    have hmade : run.2.made.map Declaration.name = ["NestInner", "NestInnerDeep", "Size"] := by
      decide +kernel
    have hfails : run.1.isOk = false := by decide +kernel
    cases hresult : run.1 with
    | ok type => rw [hresult] at hfails; cases hfails
    | error e => exact ⟨e, run.2, Prod.ext hresult rfl, hmade, htype _ _⟩
  · let run := outcome (makeStruct ⟨nest, ∅⟩ (typeOf ⟨nest, ∅⟩) "Link" collidingKeys) halfway
    have hmade : run.2.made.map Declaration.name = ["Link", "Size"] := by decide +kernel
    obtain ⟨⟨⟩, hok⟩ := exists_eq_ok (r := run.1) (by decide +kernel)
    exact ⟨run.2, Prod.ext hok rfl, hmade, hstruct _ _ (by decide) hlacks⟩

end Work

end SchemaToGo
