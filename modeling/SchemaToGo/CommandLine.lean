import SchemaToGo.Run
set_option autoImplicit false

/-!
# The command line

Arguments are read from left to right: options with a value, paths of inputs, and questions, which
are answered at once.  The first argument that does not fit ends the reading, too.

Normative source: SPEC_FULL.md section 6, the command line.  The answers to questions and the usage
text are not specified there.
-/

namespace SchemaToGo.CommandLine

/-! ## Arguments -/

/-- An option with a value. -/
inductive OptionName where
  | output
  | package
  | input
  deriving DecidableEq, Repr

/-- What a single argument is. -/
inductive Argument where
  /-- an option, with its value if that is attached -/
  | option (name : OptionName) (value : Option String)
  | path (p : String)
  | endOfOptions
  | help
  | version
  | unknown
  deriving DecidableEq, Repr

/-- A value attached to the letter of an option.  An equals sign in front is no part of it. -/
def attachedValue? : List Char → Option String
  | [] => none
  | '=' :: value => some (String.ofList value)
  | value => some (String.ofList value)

namespace Argument

/-- What an argument is. -/
def ofText (s : String) : Argument :=
  match s.toList with
  | '-' :: '-' :: word =>
    if word.isEmpty then endOfOptions
    else if word = "help".toList then help
    else if word = "version".toList then version
    else unknown
  | '-' :: letter :: rest =>
    if letter = 'o' then option .output (attachedValue? rest)
    else if letter = 'p' then option .package (attachedValue? rest)
    else if letter = 'i' then option .input (attachedValue? rest)
    else if letter = 'h' then help
    else if letter = 'V' then version
    else unknown
  | _ => path s

end Argument

/-! ## Requests -/

/-- What is to be generated, and where to. -/
structure Options where
  inputs : List String
  output : Option String
  settings : Settings
  deriving DecidableEq, Repr

/-- What the arguments ask for. -/
inductive Request where
  | generate (options : Options)
  | help
  | version
  /-- the arguments do not fit -/
  | misuse
  deriving DecidableEq, Repr

/-- What has been given so far. -/
structure Given where
  output : Option String := none
  package : Option String := none
  input : Option String := none
  paths : List String := []
  deriving DecidableEq, Repr

namespace Given

/-- Take the value of an option.  Every option may be given once; paths are not empty. -/
def set? (g : Given) (name : OptionName) (value : String) : Option Given :=
  match name with
  | .output => if g.output.isSome ∨ value = "" then none else some { g with output := value }
  | .package => if g.package.isSome then none else some { g with package := value }
  | .input => if g.input.isSome ∨ value = "" then none else some { g with input := value }

/-- Take the path of an input. -/
def addPath? (g : Given) (path : String) : Option Given :=
  if path = "" then none else some { g with paths := g.paths ++ [path] }

/-- The request made by everything that is given.  The inputs are the paths, then the value of the
option (SPEC_FULL.md section 6). -/
def request (g : Given) : Request :=
  let inputs := g.paths ++ g.input.toList
  if inputs.isEmpty then .misuse
  else
    .generate ⟨inputs, g.output, match g.package with
      | none => {}
      | some package => { package }⟩

end Given

/-- The request that arguments make after what has been given before them.  A value that is not
attached to its option is the next argument, unless that looks like an option. -/
def requestAfter (g : Given) : List String → Request
  | [] => g.request
  | argument :: rest =>
    match Argument.ofText argument with
    | .help => .help
    | .version => .version
    | .unknown => .misuse
    | .endOfOptions =>
      match rest.foldlM Given.addPath? g with
      | some g => g.request
      | none => .misuse
    | .path p =>
      match g.addPath? p with
      | some g => requestAfter g rest
      | none => .misuse
    | .option name (some value) =>
      match g.set? name value with
      | some g => requestAfter g rest
      | none => .misuse
    | .option name none =>
      match rest with
      | [] => .misuse
      | value :: rest =>
        match Argument.ofText value, g.set? name value with
        | .path _, some g => requestAfter g rest
        | _, _ => .misuse

/-- The request that arguments make. -/
def request (arguments : List String) : Request := requestAfter {} arguments

/-! ## Answers -/

/-- What a run leaves besides files and what it has put out. -/
structure Ending where
  exitCode : Nat
  stderr : String
  deriving DecidableEq, Repr

/-- The answer to the question for the version. -/
def versionText : String := "schema-generate 0.1.0\n"

/-- How the program is called. -/
def usageText : String := "Usage: schema-generate [OPTIONS] [PATH]...\n"

/-- The answer to the question for help. -/
def helpText : String :=
  "Generate Go structs from JSON Schema.\n\n" ++ usageText ++
    "\nArguments:\n" ++
    "  [PATH]...  Input JSON Schema files\n" ++
    "\nOptions:\n" ++
    "  -o <FILE>      Output file; stdout when omitted\n" ++
    "  -p <NAME>      Name of the generated Go package [default: main]\n" ++
    "  -i <FILE>      Input JSON Schema file, in addition to any positional paths\n" ++
    "  -h, --help     Print help\n" ++
    "  -V, --version  Print version\n"

/-- The report of an error.  A second line says why its place has no position, if it has none. -/
def report (e : PrintError) : String :=
  s!"Error: {e.message}\n" ++
    match e.location?.map Location.position with
    | some (.error unresolved) =>
      "Couldn't find the line and character position of the error due to error " ++
        unresolved.message ++ "\n"
    | _ => ""

/-- The exit code of an error.  A text that cannot be laid out is the fault of the program, and
stops it at once (SPEC_FULL.md section 7). -/
def exitCode : PrintError → Nat
  | .run (.generate (.render (.malformed _ _))) => 101
  | _ => 1

section

variable {m : Type → Type} [Monad m] (access : FileAccess m) (stdout : Writer m)

/-- Generate what the options say.  Without an output file the text goes to standard output. -/
def answer (options : Options) : ExceptT PrintError m Unit :=
  match options.output with
  | none => do
    let sources ← (readSources access options.inputs).adapt .run
    generateTo stdout sources options.settings
  | some output => (generateFile access options.inputs output options.settings).adapt .run

/-- Do what the arguments ask for. -/
def execute (arguments : List String) : m Ending := do
  match request arguments with
  | .help =>
    let _ ← stdout.put helpText
    return ⟨0, ""⟩
  | .version =>
    let _ ← stdout.put versionText
    return ⟨0, ""⟩
  | .misuse => return ⟨2, usageText⟩
  | .generate options =>
    match ← (answer access stdout options).run with
    | .ok () => return ⟨0, ""⟩
    | .error e => return ⟨exitCode e, report e⟩

end

/-! ## Runs on a file tree -/

/-- What a run changes: files, and what standard output is written to. -/
structure Machine (α : Type) where
  files : FileTree
  output : α

namespace Machine

variable {α : Type}

/-- The files of a machine. -/
def access (access : FileAccess (StateM FileTree)) : FileAccess (StateM (Machine α)) where
  read path machine :=
    let (result, files) := access.read path machine.files
    (result, { machine with files })
  write path bytes machine :=
    let (result, files) := access.write path bytes machine.files
    (result, { machine with files })

/-- The standard output of a machine. -/
def stdout (writer : Writer (StateM α)) : Writer (StateM (Machine α)) where
  writeAll bytes machine :=
    let (result, output) := writer.writeAll bytes machine.output
    (result, { machine with output })
  flush machine :=
    let (result, output) := writer.flush machine.output
    (result, { machine with output })

end Machine

/-- What a run leaves besides files. -/
structure Outcome where
  exitCode : Nat
  stdout : String
  stderr : String
  deriving DecidableEq, Repr

/-- Do what the arguments ask for on files of a tree. -/
def run (access : FileAccess (StateM FileTree)) (arguments : List String) :
    StateM FileTree Outcome := fun tree =>
  let (ending, machine) :=
    execute (Machine.access access) (Machine.stdout .buffer) arguments ⟨tree, []⟩
  (⟨ending.exitCode, (Utf8.decode? machine.output).getD "", ending.stderr⟩, machine.files)

end SchemaToGo.CommandLine
