import IlSplice.Cli.Request

/-!
The options of the commands.

The options of a command are listed in the order in which its help shows them.
-/

namespace IlSplice.Cli

/-- An option. -/
structure Choice where
  name : String
  short : Option Char
  /-- What help calls the value that follows, if one does. -/
  valueName : Option String
  /-- Whether the option can be given more than once. -/
  repeatable : Bool
  /-- The values that are accepted. -/
  accepts : String → Bool
  /-- What the option asks for at once, if anything. -/
  stops : Option Request
  /-- What help says about the option. -/
  about : String

namespace Choice

/-- Whether a value follows. -/
def valued (choice : Choice) : Bool := choice.valueName.isSome

/-- An option without a value. -/
def flag (name : String) (short : Option Char) (about : String) : Choice :=
  ⟨name, short, none, false, fun _ => true, none, about⟩

/-- An option that ends everything. -/
def stop (name : String) (short : Char) (request : Request) (about : String) : Choice :=
  ⟨name, some short, none, true, fun _ => true, some request, about⟩

/-- An option with a value. -/
def value (name valueName about : String) : Choice :=
  ⟨name, none, some valueName, false, fun _ => true, none, about⟩

/-- Asks for output that programs can read. -/
def json : Choice := flag "json" none "Emit output as JSON instead of human-readable text"

/-- Asks for more messages. -/
def verbose : Choice := flag "verbose" (some 'v') "Enable verbose (debug-level) logging output"

/-- Asks for help. -/
def help (topic : Topic) : Choice := stop "help" 'h' (.help topic) "Print help"

/-- The options in front of the command. -/
def top : List Choice := [json, verbose, help .program, stop "version" 'V' .version "Print version"]

/-- The options of `patch`. -/
def patch : List Choice := [
  json,
  { value "os" "OS" ("Platform layout of the installation (defaults to the current OS) "
      ++ "[possible values: windows, linux, macos]") with
    accepts := fun name => (Platform.ofName? name).isSome },
  { value "assembly" "NAME"
      "Assembly to load on startup; repeat for several (defaults to the standard set)" with
    repeatable := true },
  verbose,
  { value "output" "FILE" ("Where to write the patched assembly "
      ++ "(defaults to Assembly-CSharp.mod.dll next to the input)") with
    short := some 'o', accepts := (· ≠ "") },
  help .patch]

/-- The options of `disasm`. -/
def disasm : List Choice := [
  json,
  value "type" "NAME" "Type that holds the method [default: Starter]",
  value "method" "NAME" "Method to disassemble [default: Awake]",
  verbose,
  help .disasm]

end Choice

end IlSplice.Cli
