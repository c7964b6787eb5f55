import CommonTrace.Dump.Command

/-!
# The command

Runs the command on the files of the machine.
-/
namespace CommonTrace.Dump

/-- Why a file of the machine cannot be read. -/
def problemOf : IO.Error → FileProblem
  | .inappropriateType _ code _ => if code = 21 then .isDirectory else .notDirectory
  | .permissionDenied _ _ _ => .denied
  | .invalidArgument _ code _ => if code = 36 then .nameTooLong else .notFound
  | _ => .notFound

/-- The value of an action, or how it failed. -/
def attempt {α : Type} (action : IO α) : IO (Except IO.Error α) :=
  tryCatch (.ok <$> action) (fun e => pure (.error e))

/-- The content of a file of the machine. -/
def contentOf (path : String) : IO (Except FileProblem ByteArray) := do
  if Path.hasZero path then return .error .zeroInName
  return (← attempt (IO.FS.readBinFile path)).mapError problemOf

/-- Whether a path of the machine leads to something of a type. -/
def isOfType (type : IO.FS.FileType) (path : String) : IO Bool := do
  let found ← attempt do (← IO.FS.realPath path).metadata
  return found.toOption.any fun found => found.type == type

/-- The names in a directory of the machine. -/
def namesIn (path : String) : IO (Except FileProblem (List String)) := do
  if Path.hasZero path then return .error .zeroInName
  let entries ← attempt do (← IO.FS.realPath path).readDir
  return (entries.map fun entries => entries.toList.map (·.fileName)).mapError problemOf

/-- The files of the machine. -/
def machine : FileSystem IO where
  read := contentOf
  isFile := isOfType .file
  isDirectory := isOfType .dir
  names := namesIn

end CommonTrace.Dump

open CommonTrace Dump in
/-- Runs the command with the arguments of the process. -/
def main (arguments : List String) : IO UInt32 := do
  match ← run machine (← IO.getEnv "CTF_READER_CONFIG") arguments with
  | .ok lines =>
    for line in lines do IO.println line
    return 0
  | .error failure =>
    for line in failure.lines do IO.eprintln line
    return failure.exitCode.toUInt32
