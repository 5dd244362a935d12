import IlSplice.Cli.Arguments
import IlSplice.Cli.Disassembly
import IlSplice.Cli.Help
import IlSplice.Cli.Installation
import IlSplice.Store

/-!
The command line.

A run yields an exit code and two texts, and may change files on the way. A failure is reported
with the chain of its causes.
-/

namespace IlSplice.Cli

/-- The version of the program. -/
def version : String := "cilpatch 0.1.0"

/-- What a run of the program leaves behind. -/
structure Outcome where
  exit : UInt32
  stdout : String
  stderr : String
  deriving DecidableEq, Repr

/-- A failure to report. -/
structure Failure where
  message : String
  /-- The causes, each behind what it has caused. -/
  causes : List String
  deriving DecidableEq, Repr

namespace Failure

/-- A failure without a cause. -/
def plain (message : String) : Failure := ⟨message, []⟩

/-- What failed because of a fault. A fault of a file operation has that operation's failure as a
further cause. -/
def because (message : String) (fault : Fault) : Failure :=
  ⟨message, fault.describe :: (fault.diskError?.map DiskError.message).toList⟩

/-- A cause with `lead` in front of its first line, and further lines moved in. -/
def indented (lead rest cause : String) : String :=
  lead ++ ("\n" ++ rest).intercalate (cause.splitOn "\n")

/-- The causes, numbered if there are several. -/
def causeLines : List String → List String
  | [cause] => [indented "    " "    " cause]
  | causes => causes.zipIdx.map fun (cause, i) => indented s!"    {i}: " "       " cause

/-- The failure in words. -/
def text (f : Failure) : String :=
  let causes := if f.causes.isEmpty then []
    else "" :: "Caused by:" :: causeLines f.causes
  "\n".intercalate (s!"Error: {f.message}" :: causes) ++ "\n"

end Failure

/-- The summary of a patch as a value. -/
def patchJson (config : Patch.Config) (input output : String) (r : Patch.Report) : Json :=
  .object [("input", .text input), ("output", .text output),
    ("method", .text s!"{r.typeName}::{r.methodName}"), ("method_token", .text r.token.text),
    ("previous_size", .number r.outcome.previousSize.toInt),
    ("array_size", .number r.outcome.arraySize.toInt),
    ("inserted", .number r.outcome.inserted), ("max_stack", .number r.outcome.maxStack.toNat),
    ("entries", .array (config.entries.map .text))]

/-- Lines of output, each ended. -/
def lines (texts : List String) : String := String.join (texts.map (· ++ "\n"))

variable {m : Type → Type} [Monad m] [Disk m]

/-- Patches the game in a directory and yields what to print. -/
def runPatch (json : Bool) (directory : String) (platform : Platform) (entries : List String)
    (output : Option String) : ExceptT Failure m String := do
  if !(← (Disk.isDirectory directory : m Bool)) then
    throw (.plain s!"directory '{directory}' does not exist")
  else
    let input := Installation.assembly directory platform
    if !(← (Disk.isFile input : m Bool)) then
      throw (.plain (s!"{Installation.assemblyName} not found at '{input}'; pass the game "
        ++ "installation directory (steamapps/common/Cities_Skylines)"))
    else
      let output := output.getD (Installation.patched directory platform)
      let config := if entries.isEmpty then Patch.Config.standard
        else { Patch.Config.standard with entries := entries }
      let report ← (Store.patch config input output).adapt (.because s!"failed to patch {input}")
      if json then return lines [(patchJson config input output report).render]
      else return lines [report.text, s!"Wrote {output}"]

/-- Lists a method of a file and yields what to print. -/
def runDisasm (json : Bool) (path typeName methodName : String) : ExceptT Failure m String := do
  let module ← (Store.read path).adapt (.because s!"failed to load assembly: {path}")
  match Disassembly.ofModule module typeName methodName with
  | .error fault => throw (.plain fault.message)
  | .ok listing => return if json then lines [listing.json.render] else lines listing.text

/-- Runs a command on a platform. -/
def runCommand (host : Platform) (json : Bool) : Command → ExceptT Failure m String
  | .patch directory platform entries output =>
    runPatch json directory (platform.getD host) entries output
  | .disasm path typeName methodName => runDisasm json path typeName methodName

/-- Runs the program on a platform. -/
def run (host : Platform) (arguments : List String) : m Outcome := do
  match Request.ofArguments arguments with
  | .help topic => return ⟨0, topic.page.text, ""⟩
  | .version => return ⟨0, lines [version], ""⟩
  | .misuse => return ⟨2, "", Topic.program.page.text⟩
  | .run json command =>
    match ← (runCommand host json command).run with
    | .ok output => return ⟨0, output, ""⟩
    | .error failure => return ⟨1, "", failure.text⟩

end IlSplice.Cli
