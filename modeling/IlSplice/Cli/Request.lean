/-!
What the command line can ask for.
-/

namespace IlSplice.Cli

/-- The platforms whose installations are laid out differently. -/
inductive Platform where
  | windows
  | linux
  | macos
  deriving DecidableEq, Repr

/-- The platform of a name. -/
def Platform.ofName? : String → Option Platform
  | "windows" => some .windows
  | "linux" => some .linux
  | "macos" => some .macos
  | _ => none

/-- A command with its arguments. -/
inductive Command where
  /-- Patches the game in a directory. Without entries the standard ones are added. -/
  | patch (directory : String) (platform : Option Platform) (entries : List String)
    (output : Option String)
  /-- Lists a method of a file. -/
  | disasm (path typeName methodName : String)
  deriving DecidableEq, Repr

/-- What there is help on. -/
inductive Topic where
  | program
  | patch
  | disasm
  | help
  deriving DecidableEq, Repr

/-- The commands by name. -/
def Topic.commands : List (String × Topic) :=
  [("patch", .patch), ("disasm", .disasm), ("help", .help)]

/-- What the arguments ask for. -/
inductive Request where
  | run (json : Bool) (command : Command)
  | help (topic : Topic)
  | version
  /-- The arguments make no sense. -/
  | misuse
  deriving DecidableEq, Repr

end IlSplice.Cli
