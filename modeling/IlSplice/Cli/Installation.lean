import IlSplice.Cli.Request
import IlSplice.Store.Path

/-!
Where an installation of the game keeps its assemblies.
-/

namespace IlSplice.Cli

/-- The directories from the installation to the game's data. -/
def Platform.dataDirectories : Platform → List String
  | .windows | .linux => ["Cities_Data"]
  | .macos => ["Cities.app", "Contents", "Resources", "Data"]

namespace Installation

/-- The name of the game's own assembly. -/
def assemblyName : String := "Assembly-CSharp.dll"

/-- The name of the patched copy beside it. -/
def patchedName : String := "Assembly-CSharp.mod.dll"

/-- The directory of the assemblies. -/
def managed (directory : String) (platform : Platform) : String :=
  (platform.dataDirectories ++ ["Managed"]).foldl Path.join directory

/-- The path of the game's own assembly. -/
def assembly (directory : String) (platform : Platform) : String :=
  Path.join (managed directory platform) assemblyName

/-- The path of the patched copy. -/
def patched (directory : String) (platform : Platform) : String :=
  Path.join (managed directory platform) patchedName

end Installation

end IlSplice.Cli
