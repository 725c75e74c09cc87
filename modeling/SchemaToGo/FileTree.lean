import SchemaToGo.Dict
import SchemaToGo.Text.Split
import SchemaToGo.Text.Utf8
set_option autoImplicit false

/-!
# File trees

The files and directories that a run can see, by their routes from the root, and what reading and
writing a path does to them (SPEC_FULL.md section 6).  A path leads on from the root if it begins
with a slash, and from the working directory otherwise.  There are regular files and directories,
and neither links nor devices.  `FileAccess` abstracts from where the files are, so that the same
program works on a tree and on a disk.
-/

namespace SchemaToGo

/-! ## Errors -/

/-- Why a file cannot be read or written. -/
inductive FileError where
  | notFound
  | notADirectory
  | isADirectory
  | nameTooLong
  | nulInName
  | notUtf8
  | other (text : String)
  deriving DecidableEq, Repr

/-- The wording of a file error. -/
def FileError.message : FileError → String
  | notFound => "No such file or directory (os error 2)"
  | notADirectory => "Not a directory (os error 20)"
  | isADirectory => "Is a directory (os error 21)"
  | nameTooLong => "File name too long (os error 36)"
  | nulInName => "file name contained an unexpected NUL byte"
  | notUtf8 => "stream did not contain valid UTF-8"
  | other text => text

/-! ## Trees -/

/-- What stands at a route. -/
inductive FileNode where
  | file (bytes : List UInt8)
  | directory
  deriving DecidableEq, Repr

/-- Names from the root on. -/
abbrev Route := List String

/-- The names of the route are names of files. -/
def Route.Proper (route : Route) : Prop := ∀ name ∈ route, name ≠ "" ∧ '/' ∉ name.toList

instance (route : Route) : Decidable route.Proper :=
  inferInstanceAs (Decidable (∀ name ∈ route, name ≠ "" ∧ '/' ∉ name.toList))

/-- Files and directories.  The working directory and those around it are always there. -/
structure FileTree where
  home : Route
  proper : home.Proper
  nodes : Dict FileNode
  deriving Repr

namespace FileTree

/-- The key that a route has in a tree. -/
def key (route : Route) : String := String.intercalate "/" route

/-- What stands at a route. -/
def node? (tree : FileTree) (route : Route) : Option FileNode :=
  if route.isPrefixOf tree.home then some .directory else tree.nodes.find? (key route)

/-! ## Paths -/

/-- The length in bytes that no path reaches. -/
def pathLimit : Nat := 4096

/-- The greatest length of a name in bytes. -/
def nameLimit : Nat := 255

/-- The names that a path is made of, some of which may be empty. -/
def names (path : String) : Except FileError (List String) :=
  if path.toList.contains '\x00' then .error .nulInName
  else if path = "" then .error .notFound
  else if pathLimit ≤ path.utf8ByteSize then .error .nameTooLong
  else .ok ((Text.splitAll (· = '/') path.toList).map String.ofList)

/-- Where the names of a path are looked up from. -/
def start (tree : FileTree) (path : String) : Route :=
  if path.startsWith "/" then [] else tree.home

/-- The directory around a route.  There is none around the root. -/
def parent (route : Route) : Route := route.dropLast

/-- The route one name further.  It need not exist, but what the name is looked up in must be a
directory. -/
def step (tree : FileTree) (route : Route) (name : String) : Except FileError Route :=
  match tree.node? route with
  | none => .error .notFound
  | some (.file _) => .error .notADirectory
  | some .directory =>
    if name = "" ∨ name = "." then .ok route
    else if name = ".." then .ok (parent route)
    else if nameLimit < name.utf8ByteSize then .error .nameTooLong
    else .ok (route ++ [name])

/-! ## Reading and writing -/

/-- The bytes of the file at a path. -/
def read (tree : FileTree) (path : String) : Except FileError (List UInt8) := do
  let route ← (← names path).foldlM tree.step (tree.start path)
  match tree.node? route with
  | none => .error .notFound
  | some .directory => .error .isADirectory
  | some (.file bytes) => .ok bytes

/-- Where a path to be written leads.  A path that ends in a slash can only name a directory. -/
def routeToWrite (tree : FileTree) (path : String) : Except FileError Route := do
  let all ← names path
  let used := (all.reverse.dropWhile (· = "")).reverse
  let around ← used.dropLast.foldlM tree.step (tree.start path)
  let around ← tree.step around "."
  if all.getLast? = some "" then .error .isADirectory
  else
    let route ← tree.step around (used.getLastD ".")
    match tree.node? route with
    | some .directory => .error .isADirectory
    | _ => .ok route

/-- The tree with a file that holds the bytes at a route. -/
def withFile (tree : FileTree) (route : Route) (bytes : List UInt8) : FileTree :=
  { tree with nodes := tree.nodes.insert (key route) (.file bytes) }

/-- The tree after bytes have been written to the file at a path, which is made if it is not
there. -/
def write (tree : FileTree) (path : String) (bytes : List UInt8) : Except FileError FileTree := do
  return tree.withFile (← tree.routeToWrite path) bytes

/-- A working directory without files. -/
def empty : FileTree := ⟨["home", "work"], by decide, ∅⟩

/-- The tree with a node at a path from the working directory and directories around it. -/
def add (tree : FileTree) (e : String × FileNode) : FileTree :=
  let names := ((Text.splitAll (· = '/') e.1.toList).map String.ofList).filter
    fun name => name ≠ "" ∧ name ≠ "."
  let around := (List.range (names.length - 1)).map fun n => tree.home ++ names.take (n + 1)
  let nodes := around.foldl (fun d r => d.insert (key r) .directory) tree.nodes
  { tree with nodes := nodes.insert (key (tree.home ++ names)) e.2 }

/-- The tree that has the given nodes in its working directory, and directories around them. -/
def ofList (es : List (String × FileNode)) : FileTree := es.foldl add empty

end FileTree

/-! ## Access -/

/-- How files are read and written. -/
structure FileAccess (m : Type → Type) where
  read : String → m (Except FileError (List UInt8))
  write : String → List UInt8 → m (Except FileError Unit)

/-- The files of a tree. -/
def FileTree.access : FileAccess (StateM FileTree) where
  read path := return (← get).read path
  write path bytes := do
    match (← get).write path bytes with
    | .ok tree =>
      set tree
      return .ok ()
    | .error e => return .error e

namespace FileAccess

variable {m : Type → Type} [Monad m]

/-- The text of the file at a path. -/
def readText (access : FileAccess m) (path : String) : m (Except FileError String) := do
  match ← access.read path with
  | .error e => return .error e
  | .ok bytes =>
    match Utf8.decode? bytes with
    | some s => return .ok s
    | none => return .error .notUtf8

/-- Make the text of the file at a path. -/
def writeText (access : FileAccess m) (path text : String) : m (Except FileError Unit) :=
  access.write path (Utf8.encode text)

end FileAccess

end SchemaToGo
