import SchemaToGo.Json.Value
set_option autoImplicit false

/-!
# What readers return

A property of everything that a reader returns, whatever text it reads.  It is found step by step:
readers that fail return nothing, and a sequence returns what its last step does.
-/

namespace SchemaToGo.Json.Reader

variable {α β : Type}

/-- Whatever the reader returns satisfies `P`. -/
def Returns (P : α → Prop) (r : Reader α) : Prop := ∀ c a c', r c = .ok (a, c') → P a

theorem Returns.pure {P : α → Prop} {a : α} (h : P a) : Returns P (pure a) := by
  intro c a' c' hrun
  cases hrun
  exact h

theorem Returns.failNext (P : α → Prop) (f : Fault) : Returns P (failNext f) := nofun

theorem bind_eq_ok {r : Reader α} {next : α → Reader β} {c c' : Cursor} {b : β} :
    (r >>= next) c = .ok (b, c') ↔ ∃ a c₁, r c = .ok (a, c₁) ∧ next a c₁ = .ok (b, c') := by
  show (r c >>= fun x => next x.1 x.2) = _ ↔ _
  cases r c with
  | error e => exact ⟨nofun, fun ⟨_, _, h, _⟩ => nomatch h⟩
  | ok x =>
    constructor
    · exact fun h => ⟨x.1, x.2, rfl, h⟩
    · rintro ⟨a, c₁, h, hnext⟩
      cases h
      exact hnext

/-- The next step may rely on what the step before it returns. -/
theorem Returns.bind {P : α → Prop} {Q : β → Prop} {r : Reader α} {next : α → Reader β}
    (h : Returns P r) (hnext : ∀ a, P a → Returns Q (next a)) : Returns Q (r >>= next) := by
  intro c b c' hrun
  obtain ⟨a, c₁, hr, hb⟩ := bind_eq_ok.mp hrun
  exact hnext a (h c a c₁ hr) c₁ b c' hb

/-- The next step relies on nothing. -/
theorem Returns.after {Q : β → Prop} {r : Reader α} {next : α → Reader β}
    (hnext : ∀ a, Returns Q (next a)) : Returns Q (r >>= next) :=
  Returns.bind (P := fun _ => True) (fun _ _ _ _ => trivial) fun a _ => hnext a

theorem Returns.nullable {P : α → Prop} {item : Reader α} (h : Returns P item) :
    Returns (fun o => ∀ a, o = some a → P a) (nullable item) := by
  unfold Reader.nullable
  refine .after fun b => ?_
  split
  · exact .after fun _ => .after fun _ => .pure nofun
  · exact h.bind fun a ha => .pure fun a' ha' => Option.some.inj ha' ▸ ha

theorem Returns.refuseKind (P : α → Prop) (bound : Nat) (wanted : Wanted) :
    Returns P (refuseKind bound wanted) := by
  have hrefuse : ∀ found, Returns P fun c => .error ⟨.misfit (.wrongKind found wanted), c.index⟩ :=
    nofun
  unfold Reader.refuseKind
  refine .after fun b => ?_
  cases b with
  | none => exact .after hrefuse
  | some b =>
    dsimp only
    split
    · exact .after fun _ => .after fun _ => .after hrefuse
    · split
      · exact .after fun _ => .after fun _ => .after hrefuse
      · split
        · exact .after fun _ => .after fun _ => .after hrefuse
        · split
          · exact .after fun _ => .after hrefuse
          · split
            · exact .after fun _ => .after fun _ => .after hrefuse
            · repeat' split
              all_goals exact .after hrefuse

/-! ## Objects -/

section

variable {P : α → Prop} {member : α → String → Reader α} {bound : Nat}

theorem moreMembers_returns (hmember : ∀ s key, P s → Returns P (member s key)) (n : Nat) {s : α}
    (hs : P s) : Returns P (moreMembers bound member n s) := by
  induction n generalizing s with
  | zero => exact .failNext P _
  | succ n ih =>
    unfold moreMembers
    refine .after fun b => ?_
    cases b with
    | none => exact .failNext P _
    | some b =>
      dsimp only
      split
      · exact .after fun _ => .pure hs
      · split
        · refine .after fun _ => .after fun b => ?_
          cases b with
          | none => exact .failNext P _
          | some b =>
            dsimp only
            split
            · refine .after fun _ => .after fun key => ?_
              exact (hmember s key hs).bind fun s' hs' => ih hs'
            · split
              · exact .failNext P _
              · exact .failNext P _
        · exact .failNext P _

/-- What every member keeps is kept by the members of an object. -/
theorem members_returns (hmember : ∀ s key, P s → Returns P (member s key)) {s : α} (hs : P s) :
    Returns P (members bound member s) := by
  unfold members
  refine .after fun b => ?_
  cases b with
  | none => exact .failNext P _
  | some b =>
    dsimp only
    split
    · exact .after fun _ => .pure hs
    · split
      · refine .after fun _ => .after fun key => ?_
        exact (hmember s key hs).bind fun s' hs' => moreMembers_returns hmember bound hs'
      · exact .failNext P _

end

end SchemaToGo.Json.Reader
