import IlSplice.Module.Load
import IlSplice.Module.Write
import IlSplice.Patch
import IlSplice.Store.Path

/-!
Modules in files.

A file is replaced as a whole or not at all: its new contents go to a temporary file in the same
directory first, which takes its place only when it is complete.
-/

namespace IlSplice

/-- The operations on files that are needed, in a context `m`. -/
class Disk (m : Type → Type) where
  /-- A temporary file that is being written. -/
  Temporary : Type
  isFile : String → m Bool
  isDirectory : String → m Bool
  /-- The contents of a file. -/
  read : String → m (Except DiskError Bytes)
  /-- Makes an empty file of a new name in a directory. -/
  createTemporary : String → m (Except DiskError Temporary)
  write : Temporary → Bytes → m (Except DiskError Unit)
  /-- Waits until the contents are safe. -/
  sync : Temporary → m (Except DiskError Unit)
  /-- Moves the file to a path, in place of a file that may be there. -/
  rename : Temporary → String → m (Except DiskError Unit)
  /-- Removes the file. -/
  discard : Temporary → m Unit

namespace Store

variable {m : Type → Type} [Monad m] [Disk m]

/-- An operation on files as a step of a larger one. -/
def step (fault : DiskError → Fault) (operation : m (Except DiskError α)) : ExceptT Fault m α := do
  match ← operation with
  | .ok value => return value
  | .error cause => throw (fault cause)

/-- The contents of a file. A directory can be opened, but has no contents. -/
def readBytes (path : String) : ExceptT Fault m Bytes := do
  if ← (Disk.isDirectory path : m Bool) then throw (.unmappable .noDevice)
  else step .unreadable (Disk.read path)

/-- Loads the module in a file. -/
def read (path : String) : ExceptT Fault m Module := do
  let data ← readBytes path
  ExceptT.mk (pure (Module.ofBytes data))

/-- Fills a temporary file and moves it to a path. -/
def fill (temporary : Disk.Temporary m) (data : Bytes) (path : String) : ExceptT Fault m Unit := do
  step (.writeFailed path) (Disk.write temporary data)
  step (.writeFailed path) (Disk.sync temporary)
  step (.writeFailed path) (Disk.rename temporary path)

/-- Writes a file as a whole. A temporary file that cannot take its place is removed. -/
def persist (data : Bytes) (path : String) : ExceptT Fault m Unit := do
  let temporary ← step (.writeFailed path) (Disk.createTemporary (Path.directory path))
  tryCatch (fill temporary data path) fun fault => do
    ExceptT.lift (Disk.discard temporary)
    throw fault

/-- Writes a module to a file. -/
def write (module : Module) (path : String) : ExceptT Fault m Unit := do
  let data ← ExceptT.mk (pure module.toBytes)
  persist data path

/-- Patches the module in one file and writes it to another. Nothing is written unless all goes
well. -/
def patch (config : Patch.Config) (input output : String) : ExceptT Fault m Patch.Report := do
  if !(← (Disk.isFile input : m Bool)) then throw (.inputMissing input)
  else
    let module ← read input
    let (result, module) := (Module.patch config).runOn module
    let report ← ExceptT.mk (pure result)
    write module output
    return report

end Store

end IlSplice
