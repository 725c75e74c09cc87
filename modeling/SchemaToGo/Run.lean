import SchemaToGo.FileTree
import SchemaToGo.Generate
set_option autoImplicit false

/-!
# Runs on files

Sources are read from files and the generated text is handed out, written to a file, or put out.
Nothing is written or put out unless everything before has succeeded.

Normative source: SPEC_FULL.md sections 6 and 7: the output file is only created after generation
has succeeded, and no output is partial.
-/

namespace SchemaToGo

/-- Why a run on files fails. -/
inductive RunError where
  | generate (e : GenerateError)
  | unreadable (path : String) (e : FileError)
  | unwritable (path : String) (e : FileError)

namespace RunError

/-- The wording of an error. -/
def message : RunError → String
  | generate e => e.message
  | unreadable path e => s!"failed to read the input file {path}: {e.message}"
  | unwritable path e => s!"failed to write the output file {path}: {e.message}"

/-- The place in a source that an error is about, if it is about one. -/
def location? : RunError → Option Location
  | generate e => e.location?
  | _ => none

end RunError

/-- Why a text is not put out. -/
inductive PrintError where
  | run (e : RunError)
  | unprinted (e : FileError)

namespace PrintError

/-- The wording of an error. -/
def message : PrintError → String
  | run e => e.message
  | unprinted e => e.message

/-- The place in a source that an error is about, if it is about one. -/
def location? : PrintError → Option Location
  | run e => e.location?
  | unprinted _ => none

end PrintError

/-- Where bytes are put out.  Some may be kept back until the writer is flushed. -/
structure Writer (m : Type → Type) where
  writeAll : List UInt8 → m (Except FileError Unit)
  flush : m (Except FileError Unit)

/-- A buffer, which takes whatever it is given. -/
def Writer.buffer : Writer (StateM (List UInt8)) where
  writeAll bytes kept := (.ok (), kept ++ bytes)
  flush kept := (.ok (), kept)

/-- Put out a text with nothing of it kept back. -/
def Writer.put {m : Type → Type} [Monad m] (writer : Writer m) (text : String) :
    m (Except FileError Unit) := do
  match ← writer.writeAll (Utf8.encode text) with
  | .ok () => writer.flush
  | .error e => return .error e

variable {m : Type → Type} [Monad m] (access : FileAccess m)

/-- The source in the file at a path, which also gives it its name. -/
def readSource (path : String) : ExceptT RunError m Source := do
  match ← access.readText path with
  | .ok text => return ⟨path, text⟩
  | .error e => throw (.unreadable path e)

/-- The sources in the files at some paths. -/
def readSources (inputs : List String) : ExceptT RunError m (List Source) :=
  inputs.mapM (readSource access)

/-- The Go text for the sources in the files at some paths. -/
def generateText (inputs : List String) (settings : Settings) : ExceptT RunError m String := do
  let sources ← readSources access inputs
  match generate sources settings with
  | .ok t => return t
  | .error e => throw (.generate e)

/-- Write the Go text for the sources in the files at some paths to another file. -/
def generateFile (inputs : List String) (output : String) (settings : Settings) :
    ExceptT RunError m Unit := do
  let text ← generateText access inputs settings
  match ← access.writeText output text with
  | .ok () => return ()
  | .error e => throw (.unwritable output e)

/-- Put out the Go text for sources. -/
def generateTo (writer : Writer m) (sources : List Source) (settings : Settings) :
    ExceptT PrintError m Unit := do
  match generate sources settings with
  | .error e => throw (.run (.generate e))
  | .ok text =>
    match ← writer.put text with
    | .ok () => return ()
    | .error e => throw (.unprinted e)

end SchemaToGo
