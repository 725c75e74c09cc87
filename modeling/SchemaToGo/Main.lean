import SchemaToGo.CommandLine
set_option autoImplicit false

/-!
# The program

The command line on the files of the disk.

Normative source: SPEC_FULL.md section 6.
-/

namespace SchemaToGo

/-- A failure of the system as a file error.  Codes may have their sign turned round. -/
def FileError.ofSystem (e : IO.Error) : FileError :=
  let is (code : UInt32) (number : Nat) : Bool :=
    code.toNat = number || (0 - code).toNat = number
  match e with
  | .noFileOrDirectory _ _ _ => .notFound
  | .inappropriateType _ code _ => if is code 20 then .notADirectory else .isADirectory
  | .invalidArgument _ code _ => if is code 36 then .nameTooLong else .other e.toString
  | _ => .other e.toString

/-- The files of the disk. -/
def diskAccess : FileAccess IO where
  read path := do
    try
      return .ok (← IO.FS.readBinFile path).toList
    catch e => return .error (.ofSystem e)
  write path bytes := do
    try
      IO.FS.writeBinFile path bytes.toByteArray
      return .ok ()
    catch e => return .error (.ofSystem e)

/-- The standard output of the program. -/
def standardOutput : Writer IO where
  writeAll bytes := do
    try
      (← IO.getStdout).write bytes.toByteArray
      return .ok ()
    catch e => return .error (.ofSystem e)
  flush := do
    try
      (← IO.getStdout).flush
      return .ok ()
    catch e => return .error (.ofSystem e)

end SchemaToGo

/-- Answer the command line and leave with its exit code. -/
def main (arguments : List String) : IO UInt32 := do
  let ending ← SchemaToGo.CommandLine.execute SchemaToGo.diskAccess SchemaToGo.standardOutput
    arguments
  IO.eprint ending.stderr
  return ending.exitCode.toUInt32
