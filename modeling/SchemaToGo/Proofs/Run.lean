import SchemaToGo.CommandLine
import SchemaToGo.Proofs.FileTree
import Mathlib.Data.List.Forall2
set_option autoImplicit false

/-!
# All or nothing

A run on files writes the whole text that is generated for what the files held before, or nothing at
all: `all_or_nothing`.  All files are read and the text is complete before anything is written or
put out, so whatever fails leaves everything as it was.

Normative source: SPEC_FULL.md section 7: all errors abort the run, and no output is partial.
-/

namespace SchemaToGo

/-! ## Work on a state -/

section

variable {σ ε ε' α β : Type}

/-- What work on a state comes to, and the state that it leaves. -/
def ran (work : ExceptT ε (StateM σ) α) (s : σ) : Except ε α × σ := work s

theorem ran_bind (work : ExceptT ε (StateM σ) α) (next : α → ExceptT ε (StateM σ) β) (s : σ) :
    ran (work >>= next) s =
      match ran work s with
      | (.ok a, s') => ran (next a) s'
      | (.error e, s') => (.error e, s') := by
  show ExceptT.bindCont next (work s).1 (work s).2 = _
  unfold ran
  cases work s with
  | mk r s' => cases r <;> rfl

theorem state_bind (step : StateM σ α) (next : α → StateM σ β) (s : σ) :
    (step >>= next) s = next (step s).1 (step s).2 := rfl

/-- A step that cannot fail itself. -/
theorem ran_lift_bind (step : StateM σ α) (next : α → ExceptT ε (StateM σ) β) (s : σ) :
    ran (liftM step >>= next) s = ran (next (step s).1) (step s).2 := rfl

theorem ran_adapt (f : ε → ε') (work : ExceptT ε (StateM σ) α) (s : σ) :
    ran (work.adapt f) s = ((ran work s).1.mapError f, (ran work s).2) := rfl

end

/-! ## Files -/

/-- Files are read from a tree that is part of the state and written to it.  Both may fail for other
reasons than the tree gives, and leave the state as it is then. -/
structure FileAccess.Serves {σ : Type} (access : FileAccess (StateM σ)) (files : σ → FileTree)
    (replace : σ → FileTree → σ) : Prop where
  read : ∀ path s, (∃ bytes, access.read path s = (.ok bytes, s) ∧
      (files s).read path = .ok bytes) ∨ ∃ e, access.read path s = (.error e, s)
  write : ∀ path bytes s, (∃ tree, access.write path bytes s = (.ok (), replace s tree) ∧
      (files s).write path bytes = .ok tree) ∨ ∃ e, access.write path bytes s = (.error e, s)

theorem FileTree.access_write (path : String) (bytes : List UInt8) (tree : FileTree) :
    access.write path bytes tree =
      match tree.write path bytes with
      | .ok tree' => (.ok (), tree')
      | .error e => (.error e, tree) := by
  show (match tree.write path bytes with
    | .ok tree' => (do set tree'; return .ok () : StateM FileTree (Except FileError Unit))
    | .error e => return .error e) tree = _
  cases tree.write path bytes <;> rfl

theorem FileTree.access_serves : FileTree.access.Serves id fun _ tree => tree where
  read path tree := by
    show (∃ bytes, (tree.read path, tree) = _ ∧ _) ∨ ∃ e, (tree.read path, tree) = _
    cases hread : tree.read path with
    | ok bytes => exact .inl ⟨bytes, rfl, hread⟩
    | error e => exact .inr ⟨e, rfl⟩
  write path bytes tree := by
    rw [FileTree.access_write]
    cases hwrite : tree.write path bytes with
    | ok tree' => exact .inl ⟨tree', rfl, hwrite⟩
    | error e => exact .inr ⟨e, rfl⟩

/-- The source is the file at the path: its name is the path, and its text is what the file
holds. -/
def Source.Stands (tree : FileTree) (path : String) (source : Source) : Prop :=
  source.name = path ∧ tree.read path = .ok (Utf8.encode source.text)

section

variable {σ : Type} {access : FileAccess (StateM σ)} {files : σ → FileTree}
  {replace : σ → FileTree → σ} (haccess : access.Serves files replace)

include haccess

theorem readText_cases (path : String) (s : σ) :
    (∃ text, access.readText path s = (.ok text, s) ∧
      (files s).read path = .ok (Utf8.encode text)) ∨
    ∃ e, access.readText path s = (.error e, s) := by
  unfold FileAccess.readText
  rw [state_bind]
  rcases haccess.read path s with ⟨bytes, hbytes, hread⟩ | ⟨e, he⟩
  · rw [hbytes]
    dsimp only
    cases htext : Utf8.decode? bytes with
    | some text =>
      rw [Utf8.decode?_eq_some_iff.mp htext] at hread
      exact .inl ⟨text, rfl, hread⟩
    | none => exact .inr ⟨_, rfl⟩
  · rw [he]
    exact .inr ⟨_, rfl⟩

/-- A source is read and nothing else happens. -/
theorem ran_readSource (path : String) (s : σ) :
    (∃ source, ran (readSource access path) s = (.ok source, s) ∧
      source.Stands (files s) path) ∨ ∃ e, ran (readSource access path) s = (.error e, s) := by
  unfold readSource
  rw [ran_lift_bind]
  rcases readText_cases haccess path s with ⟨text, htext, hread⟩ | ⟨e, he⟩
  · rw [htext]
    exact .inl ⟨⟨path, text⟩, rfl, rfl, hread⟩
  · rw [he]
    exact .inr ⟨_, rfl⟩

/-- Sources are read and nothing else happens. -/
theorem ran_readSources (paths : List String) (s : σ) :
    (∃ sources, ran (readSources access paths) s = (.ok sources, s) ∧
      List.Forall₂ (Source.Stands (files s)) paths sources) ∨
    ∃ e, ran (readSources access paths) s = (.error e, s) := by
  unfold readSources
  induction paths with
  | nil => exact .inl ⟨[], rfl, .nil⟩
  | cons path rest ih =>
    rw [List.mapM_cons, ran_bind]
    rcases ran_readSource haccess path s with ⟨source, hsource, hstands⟩ | ⟨e, he⟩
    · rw [hsource]
      dsimp only
      rw [ran_bind]
      rcases ih with ⟨sources, hsources, hall⟩ | ⟨e, he⟩
      · rw [hsources]
        exact .inl ⟨source :: sources, rfl, .cons hstands hall⟩
      · rw [he]
        exact .inr ⟨e, rfl⟩
    · rw [he]
      exact .inr ⟨e, rfl⟩

/-- The text is generated from what the files hold and nothing else happens. -/
theorem ran_generateText (inputs : List String) (settings : Settings) (s : σ) :
    (∃ sources text, ran (generateText access inputs settings) s = (.ok text, s) ∧
      List.Forall₂ (Source.Stands (files s)) inputs sources ∧
      generate sources settings = .ok text) ∨
    ∃ e, ran (generateText access inputs settings) s = (.error e, s) := by
  unfold generateText
  rw [ran_bind]
  rcases ran_readSources haccess inputs s with ⟨sources, hsources, hall⟩ | ⟨e, he⟩
  · rw [hsources]
    dsimp only
    cases hgenerate : generate sources settings with
    | ok text => exact .inl ⟨sources, text, rfl, hall, hgenerate⟩
    | error e => exact .inr ⟨_, rfl⟩
  · rw [he]
    exact .inr ⟨e, rfl⟩

/-- The text is written if everything succeeds, and nothing happens otherwise. -/
theorem ran_generateFile (inputs : List String) (output : String) (settings : Settings) (s : σ) :
    (∃ sources text tree,
      ran (generateFile access inputs output settings) s = (.ok (), replace s tree) ∧
      List.Forall₂ (Source.Stands (files s)) inputs sources ∧
      generate sources settings = .ok text ∧ (files s).Gets output (Utf8.encode text) tree) ∨
    ∃ e, ran (generateFile access inputs output settings) s = (.error e, s) := by
  unfold generateFile
  rw [ran_bind]
  rcases ran_generateText haccess inputs settings s with
    ⟨sources, text, htext, hall, hgenerate⟩ | ⟨e, he⟩
  · rw [htext]
    dsimp only
    rw [ran_lift_bind]
    unfold FileAccess.writeText
    rcases haccess.write output (Utf8.encode text) s with ⟨tree, hdone, hwrite⟩ | ⟨e, he⟩
    · rw [hdone]
      exact .inl ⟨sources, text, tree, rfl, hall, hgenerate, FileTree.gets_of_write hwrite⟩
    · rw [he]
      exact .inr ⟨_, rfl⟩
  · rw [he]
    exact .inr ⟨e, rfl⟩

end

/-! ## Writers -/

section

variable {σ : Type} (writer : Writer (StateM σ)) (sources : List Source) (settings : Settings)

/-- A text is put out in one piece after it has been generated, and nothing happens otherwise. -/
theorem ran_generateTo (s : σ) :
    (∃ e, generate sources settings = .error e ∧
      ran (generateTo writer sources settings) s = (.error (.run (.generate e)), s)) ∨
    ∃ text, generate sources settings = .ok text ∧
      ran (generateTo writer sources settings) s =
        ((writer.put text s).1.mapError .unprinted, (writer.put text s).2) := by
  unfold generateTo
  cases generate sources settings with
  | error e => exact .inl ⟨e, rfl, rfl⟩
  | ok text =>
    refine .inr ⟨text, rfl, ?_⟩
    dsimp only
    rw [ran_lift_bind]
    cases (writer.put text s).1 <;> rfl

end

/-- A buffer takes a text whole. -/
theorem buffer_put (text : String) (kept : List UInt8) :
    Writer.buffer.put text kept = (.ok (), kept ++ Utf8.encode text) := rfl

/-- A buffer gets the whole text or nothing. -/
theorem ran_generateTo_buffer (sources : List Source) (settings : Settings) (kept : List UInt8) :
    (∃ text, generate sources settings = .ok text ∧
      ran (generateTo .buffer sources settings) kept = (.ok (), kept ++ Utf8.encode text)) ∨
    ∃ e, ran (generateTo .buffer sources settings) kept = (.error e, kept) := by
  rcases ran_generateTo .buffer sources settings kept with ⟨e, _, he⟩ | ⟨text, hgenerate, hput⟩
  · exact .inr ⟨_, he⟩
  · rw [buffer_put] at hput
    exact .inl ⟨text, hgenerate, hput⟩

/-! ## Command lines -/

namespace CommandLine

variable {α : Type}

/-- What is put out on standard output leaves the files alone. -/
theorem Machine.stdout_put (writer : Writer (StateM α)) (text : String) (machine : Machine α) :
    (Machine.stdout writer).put text machine =
      ((writer.put text machine.output).1,
        { machine with output := (writer.put text machine.output).2 }) := by
  rcases hwrite : writer.writeAll (Utf8.encode text) machine.output with ⟨result, output⟩
  have hstdout : (Machine.stdout writer).writeAll (Utf8.encode text) machine =
      (result, { machine with output }) := by
    unfold Machine.stdout
    dsimp only
    rw [hwrite]
  unfold Writer.put
  rw [state_bind, state_bind, hstdout, hwrite]
  cases result <;> rfl

/-- The files of a machine are those of its tree. -/
theorem Machine.access_serves {access : FileAccess (StateM FileTree)}
    (h : access.Serves id fun _ tree => tree) :
    (Machine.access (α := α) access).Serves Machine.files
      fun machine files => { machine with files } where
  read path machine := by
    unfold Machine.access
    dsimp only
    rcases h.read path machine.files with ⟨bytes, hbytes, hread⟩ | ⟨e, he⟩
    · exact .inl ⟨bytes, by rw [hbytes], hread⟩
    · exact .inr ⟨e, by rw [he]⟩
  write path bytes machine := by
    unfold Machine.access
    dsimp only
    rcases h.write path bytes machine.files with ⟨tree, hdone, hwrite⟩ | ⟨e, he⟩
    · exact .inl ⟨tree, by rw [hdone], hwrite⟩
    · exact .inr ⟨e, by rw [he]⟩

namespace Options

/-- The text is the one for what the inputs hold. -/
def Generates (options : Options) (tree : FileTree) (text : String) : Prop :=
  ∃ sources, List.Forall₂ (Source.Stands tree) options.inputs sources ∧
    generate sources options.settings = .ok text

/-- The text has got where the options say, and nothing else has changed. -/
def Delivers (options : Options) (writer : Writer (StateM α)) (text : String)
    (before after : Machine α) : Prop :=
  match options.output with
  | none => after.files = before.files ∧ writer.put text before.output = (.ok (), after.output)
  | some output =>
    after.output = before.output ∧ before.files.Gets output (Utf8.encode text) after.files

/-- The text is to go to standard output, and standard output itself fails to take it. -/
def Withholds (options : Options) (writer : Writer (StateM α)) (text : String)
    (before after : Machine α) : Prop :=
  options.output = none ∧ after.files = before.files ∧
    ∃ e, writer.put text before.output = (.error e, after.output)

end Options

theorem exitCode_ne_zero (e : PrintError) : exitCode e ≠ 0 := by
  unfold exitCode
  split <;> decide

section

variable {access : FileAccess (StateM (Machine α))}
  (haccess : access.Serves Machine.files fun machine files => { machine with files })
  (writer : Writer (StateM α))

include haccess

/-- The text is delivered if everything succeeds, and nothing happens before standard output itself
fails. -/
theorem ran_answer (options : Options) (machine : Machine α) :
    (∃ text machine', ran (answer access (Machine.stdout writer) options) machine =
        (.ok (), machine') ∧
      options.Generates machine.files text ∧ options.Delivers writer text machine machine') ∨
    ∃ e machine', ran (answer access (Machine.stdout writer) options) machine =
        (.error e, machine') ∧
      (machine' = machine ∨ ∃ text, options.Generates machine.files text ∧
        options.Withholds writer text machine machine') := by
  obtain ⟨inputs, output, settings⟩ := options
  unfold answer Options.Delivers Options.Withholds
  cases output with
  | none =>
    dsimp only
    rw [ran_bind, ran_adapt]
    rcases ran_readSources haccess inputs machine with ⟨sources, hsources, hall⟩ | ⟨e, he⟩
    · rw [hsources]
      show (∃ text machine', ran (generateTo (Machine.stdout writer) sources settings) machine =
          _ ∧ _) ∨ ∃ e machine',
        ran (generateTo (Machine.stdout writer) sources settings) machine = _ ∧ _
      rcases ran_generateTo (Machine.stdout writer) sources settings machine with
        ⟨e, _, he⟩ | ⟨text, hgenerate, htext⟩
      · exact .inr ⟨_, _, he, .inl rfl⟩
      · rw [htext, Machine.stdout_put]
        rcases hput : writer.put text machine.output with ⟨_ | _, output⟩
        · exact .inr ⟨_, _, rfl, .inr ⟨text, ⟨sources, hall, hgenerate⟩, rfl, rfl, _, hput⟩⟩
        · exact .inl ⟨text, _, rfl, ⟨sources, hall, hgenerate⟩, rfl, hput⟩
    · rw [he]
      exact .inr ⟨_, _, rfl, .inl rfl⟩
  | some output =>
    dsimp only
    rw [ran_adapt]
    rcases ran_generateFile haccess inputs output settings machine with
      ⟨sources, text, tree, hdone, hall, hgenerate, hgets⟩ | ⟨e, he⟩
    · rw [hdone]
      exact .inl ⟨text, _, rfl, ⟨sources, hall, hgenerate⟩, rfl, hgets⟩
    · rw [he]
      exact .inr ⟨_, _, rfl, .inl rfl⟩

/-- A run that generates something delivers the text and ends with exit code zero, or it ends with
another exit code and nothing has changed unless standard output itself fails. -/
theorem execute_cases {arguments : List String} {options : Options}
    (hrequest : request arguments = .generate options) (machine : Machine α) :
    (∃ text machine', execute access (Machine.stdout writer) arguments machine =
        (⟨0, ""⟩, machine') ∧
      options.Generates machine.files text ∧ options.Delivers writer text machine machine') ∨
    ∃ ending machine', execute access (Machine.stdout writer) arguments machine =
        (ending, machine') ∧ ending.exitCode ≠ 0 ∧
      (machine' = machine ∨ ∃ text, options.Generates machine.files text ∧
        options.Withholds writer text machine machine') := by
  unfold execute
  rw [hrequest]
  dsimp only
  rw [state_bind]
  rcases ran_answer haccess writer options machine with
    ⟨text, machine', hdone, hgenerates, hdelivers⟩ | ⟨e, machine', hdone, hnothing⟩
  · change (answer access (Machine.stdout writer) options).run machine = _ at hdone
    rw [hdone]
    exact .inl ⟨text, machine', rfl, hgenerates, hdelivers⟩
  · change (answer access (Machine.stdout writer) options).run machine = _ at hdone
    rw [hdone]
    exact .inr ⟨_, machine', rfl, exitCode_ne_zero e, hnothing⟩

/-- A run that does not answer a question ends with exit code zero and has delivered the text, or it
has changed nothing unless standard output itself fails. -/
theorem execute_delivers {arguments : List String} {machine machine' : Machine α} {ending : Ending}
    (hrun : execute access (Machine.stdout writer) arguments machine = (ending, machine'))
    (hhelp : request arguments ≠ .help) (hversion : request arguments ≠ .version) :
    (ending.exitCode ≠ 0 → machine' = machine ∨
      ∃ options text, request arguments = .generate options ∧
        options.Generates machine.files text ∧ options.Withholds writer text machine machine') ∧
    (ending.exitCode = 0 → ∃ options text, request arguments = .generate options ∧
      options.Generates machine.files text ∧ options.Delivers writer text machine machine') := by
  cases hrequest : request arguments with
  | help => exact absurd hrequest hhelp
  | version => exact absurd hrequest hversion
  | misuse =>
    have hmisuse : execute access (Machine.stdout writer) arguments machine =
        (⟨2, usageText⟩, machine) := by
      unfold execute
      rw [hrequest]
      rfl
    rw [hmisuse] at hrun
    cases hrun
    exact ⟨fun _ => .inl rfl, fun hzero => absurd hzero (by decide)⟩
  | generate options =>
    rcases execute_cases haccess writer hrequest machine with
      ⟨text, _, hdone, hgenerates, hdelivers⟩ | ⟨_, _, hdone, hne, hnothing⟩
    · rw [hdone] at hrun
      cases hrun
      exact ⟨fun hne => absurd rfl hne, fun _ => ⟨options, text, rfl, hgenerates, hdelivers⟩⟩
    · rw [hdone] at hrun
      cases hrun
      refine ⟨fun _ => hnothing.imp_right ?_, fun hzero => absurd hzero hne⟩
      rintro ⟨text, hgenerates, hwithholds⟩
      exact ⟨options, text, rfl, hgenerates, hwithholds⟩

end

/-- A run whose standard output is kept in a buffer changes nothing if its exit code is not zero,
and delivers the text if it is. -/
theorem execute_buffer {access : FileAccess (StateM FileTree)}
    (haccess : access.Serves id fun _ tree => tree) {arguments : List String} {tree : FileTree}
    {ending : Ending} {machine : Machine (List UInt8)}
    (hrun : execute (Machine.access access) (Machine.stdout .buffer) arguments ⟨tree, []⟩ =
      (ending, machine))
    (hhelp : request arguments ≠ .help) (hversion : request arguments ≠ .version) :
    (ending.exitCode ≠ 0 → machine = ⟨tree, []⟩) ∧
    (ending.exitCode = 0 → ∃ options text, request arguments = .generate options ∧
      options.Generates tree text ∧
      match options.output with
      | none => machine = ⟨tree, Utf8.encode text⟩
      | some output =>
        machine.output = [] ∧ tree.Gets output (Utf8.encode text) machine.files) := by
  obtain ⟨hfails, hsucceeds⟩ :=
    execute_delivers (Machine.access_serves haccess) .buffer hrun hhelp hversion
  constructor
  · intro hne
    rcases hfails hne with hsame | ⟨_, text, _, _, _, _, e, he⟩
    · exact hsame
    · rw [buffer_put] at he
      cases he
  · intro hzero
    obtain ⟨options, text, hrequest, hgenerates, hdelivers⟩ := hsucceeds hzero
    refine ⟨options, text, hrequest, hgenerates, ?_⟩
    unfold Options.Delivers at hdelivers
    cases houtput : options.output with
    | some output => rwa [houtput] at hdelivers
    | none =>
      rw [houtput] at hdelivers
      obtain ⟨files, output⟩ := machine
      obtain ⟨rfl, hput⟩ := hdelivers
      cases hput
      rfl

end CommandLine

/-- A schema, and a text that is none. -/
def FileTree.desk : FileTree :=
  .ofList [("a.json", .file (Utf8.encode "\x7b\"type\": \"string\"\x7d")),
    ("b.json", .file (Utf8.encode "\x7b"))]

end SchemaToGo
