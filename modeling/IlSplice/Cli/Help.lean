import IlSplice.Cli.Choice

/-!
Pages of help.

A page says what a command is for and how it is called, and lists what belongs to it, with the
explanations of a list below each other.
-/

namespace IlSplice.Cli

/-- A list of terms with their explanations. -/
structure Glossary where
  heading : String
  entries : List (String × String)
  deriving DecidableEq, Repr

/-- A page of help. -/
structure Page where
  about : String
  usage : String
  glossaries : List Glossary
  deriving DecidableEq, Repr

/-- The list as text. -/
def Glossary.text (g : Glossary) : String :=
  let width := (g.entries.map (·.1.length)).foldl max 0
  let entry := fun ((term, explanation) : String × String) =>
    "  " ++ term ++ String.ofList (List.replicate (width - term.length) ' ') ++ "  " ++ explanation
  "\n".intercalate ((g.heading ++ ":") :: g.entries.map entry)

/-- The page as text. -/
def Page.text (p : Page) : String :=
  "\n\n".intercalate (p.about :: ("Usage: " ++ p.usage) :: p.glossaries.map Glossary.text) ++ "\n"

/-- The forms of an option. -/
def Choice.forms (choice : Choice) : String :=
  let short := match choice.short with
    | some c => s!"-{c}, "
    | none => "    "
  let value := match choice.valueName with
    | some name => s!" <{name}>"
    | none => ""
  short ++ "--" ++ choice.name ++ value

/-- The list of options. -/
def Choice.glossary (choices : List Choice) : Glossary :=
  ⟨"Options", choices.map fun choice => (choice.forms, choice.about)⟩

namespace Topic

/-- What a command is for. -/
def about : Topic → String
  | .program =>
    "Command line front end for cilpatch: inject plugin assemblies into a Unity game's startup"
  | .patch => "Patch the game's Assembly-CSharp.dll so it loads extra assemblies on startup"
  | .disasm => "Print the target method's instructions and mark the patch anchors"
  | .help => "Print this message or the help of the given subcommand(s)"

/-- How a command is called. -/
def usage : Topic → String
  | .program => "cilpatch [OPTIONS] <COMMAND>"
  | .patch => "cilpatch patch [OPTIONS] <INSTALL_DIR>"
  | .disasm => "cilpatch disasm [OPTIONS] <FILE>"
  | .help => "cilpatch help [COMMAND]..."

/-- What belongs to a command. -/
def glossaries : Topic → List Glossary
  | .program =>
    [⟨"Commands", commands.map fun (name, topic) => (name, topic.about)⟩,
      Choice.glossary Choice.top]
  | .patch =>
    [⟨"Arguments", [("<INSTALL_DIR>", "Game installation directory")]⟩,
      Choice.glossary Choice.patch]
  | .disasm =>
    [⟨"Arguments", [("<FILE>", "Path to the .NET assembly file")]⟩,
      Choice.glossary Choice.disasm]
  | .help => [⟨"Arguments", [("[COMMAND]...", "Print help for the subcommand(s)")]⟩]

/-- The help on a topic. -/
def page (topic : Topic) : Page := ⟨topic.about, topic.usage, topic.glossaries⟩

end Topic

end IlSplice.Cli
