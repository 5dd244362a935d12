import IlSplice.Cli

/-!
The program: the command line on the files of the system.
-/

namespace IlSplice

/-- The system's number for a failure of a file operation. -/
def systemCode? : IO.Error → Option UInt32
  | .noFileOrDirectory _ code _ | .inappropriateType _ code _ | .invalidArgument _ code _
  | .resourceExhausted _ code _ | .permissionDenied _ code _ | .noSuchThing _ code _
  | .resourceBusy code _ | .unsupportedOperation code _ | .otherError code _ => some code
  | _ => none

/-- The reason that the system gives for a failure. -/
def DiskError.ofSystem (error : IO.Error) : DiskError :=
  match systemCode? error with
  | some 2 => .notFound
  | some 16 => .busy
  | some 19 => .noDevice
  | some 20 => .notDirectory
  | some 21 => .isDirectory
  | some 28 => .noSpace
  | some 30 => .readOnly
  | some 36 => .nameTooLong
  | _ => .other error.toString

namespace Files

/-- Runs an operation and keeps the reason of a failure. -/
def attempt (operation : IO α) : IO (Except DiskError α) := do
  try
    return .ok (← operation)
  catch error =>
    return .error (.ofSystem error)

/-- A temporary file and its path. -/
structure Temporary where
  path : String
  handle : IO.FS.Handle

/-- What a path refers to is of a certain type. -/
def isOfType (type : IO.FS.FileType) (path : String) : IO Bool := do
  try
    let here ← IO.currentDir
    return (← (here / path).metadata).type == type
  catch _ =>
    return false

/-- Makes an empty file of a name that is not in use. -/
def create (directory : String) : IO Temporary := do
  let random ← IO.getRandomBytes 8
  let name := ".tmp" ++ String.join (random.toList.map fun b => Hex.padded 2 b.toNat)
  let path := Path.join directory name
  return ⟨path, ← IO.FS.Handle.mk path .writeNew⟩

instance : Disk IO where
  Temporary := Temporary
  isFile := isOfType .file
  isDirectory := isOfType .dir
  read path := attempt do
    return (← IO.FS.readBinFile path).data
  createTemporary directory := attempt (create directory)
  write temporary data := attempt (temporary.handle.write ⟨data⟩)
  sync temporary := attempt temporary.handle.flush
  rename temporary path := attempt (IO.FS.rename temporary.path path)
  discard temporary := do
    let _ ← attempt (IO.FS.removeFile temporary.path)

end Files

end IlSplice

/-- Runs the program with its arguments. -/
def main (arguments : List String) : IO UInt32 := do
  let outcome ← IlSplice.Cli.run .linux arguments
  IO.print outcome.stdout
  IO.eprint outcome.stderr
  return outcome.exit
