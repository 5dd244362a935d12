import IlSplice.Cli.Choice

/-!
The arguments of the command line.

Options may stand anywhere behind the command that knows them, as `--name value`, `--name=value`
or in a short form, and short forms without a value may share a dash. Behind two dashes nothing is
an option. Arguments are looked at from left to right, and the first one that is wrong, or that
asks for help, decides.
-/

namespace IlSplice.Cli

/-- The arguments read so far. -/
structure Given where
  /-- The options and their values, in order. -/
  options : List (String × String)
  /-- All other arguments, in order. -/
  words : List String

namespace Given

/-- The values of an option. -/
def values (g : Given) (name : String) : List String :=
  (g.options.filter (·.1 = name)).map (·.2)

/-- The value of an option. -/
def value? (g : Given) (name : String) : Option String := (g.values name).head?

/-- The option was given. -/
def has (g : Given) (name : String) : Bool := !(g.values name).isEmpty

/-- Takes an option down. -/
def option (g : Given) (choice : Choice) (value : String) : Except Request Given :=
  match choice.stops with
  | some request => .error request
  | none =>
    if (g.has choice.name && !choice.repeatable) || !choice.accepts value then .error .misuse
    else .ok { g with options := g.options ++ [(choice.name, value)] }

/-- Takes another argument down. No command knows more than one, and it is a path. -/
def word (g : Given) (text : String) : Except Request Given :=
  if text = "" ∨ g.words ≠ [] then .error .misuse else .ok { g with words := [text] }

end Given

/-- An argument that can only be an option. -/
def isOption (argument : String) : Bool := argument.startsWith "-" && argument ≠ "-"

/-- Takes a text apart at its first equals sign. -/
def splitValue (text : List Char) : String × Option String :=
  match text.span (· ≠ '=') with
  | (name, _ :: value) => (String.ofList name, some (String.ofList value))
  | (name, []) => (String.ofList name, none)

/-- What an argument asks of the arguments behind it. -/
inductive Wanted where
  | nothing
  /-- The next argument is the value of an option. -/
  | value (choice : Choice)

/-- Reads short forms that share a dash. -/
def readShort (choices : List Choice) : List Char → Given → Except Request (Given × Wanted)
  | [], g => .ok (g, .nothing)
  | c :: rest, g =>
    match choices.find? (·.short = some c) with
    | none => .error .misuse
    | some choice =>
      if !choice.valued then do
        readShort choices rest (← g.option choice "")
      else
        match rest with
        | [] => .ok (g, .value choice)
        | '=' :: value => return (← g.option choice (String.ofList value), .nothing)
        | value => return (← g.option choice (String.ofList value), .nothing)

/-- Reads a long form, without its dashes. -/
def readLong (choices : List Choice) (text : List Char) (g : Given) :
    Except Request (Given × Wanted) :=
  let (name, value?) := splitValue text
  match choices.find? (·.name = name), value? with
  | none, _ => .error .misuse
  | some choice, some value =>
    if choice.valued then return (← g.option choice value, .nothing) else .error .misuse
  | some choice, none =>
    if choice.valued then .ok (g, .value choice) else return (← g.option choice "", .nothing)

/-- Reads an argument that is an option. -/
def readOption (choices : List Choice) (argument : String) (g : Given) :
    Except Request (Given × Wanted) :=
  match argument.toList with
  | '-' :: '-' :: text => readLong choices text g
  | _ :: text => readShort choices text g
  | [] => .error .misuse

/-- Reads the arguments of a command. -/
def read (choices : List Choice) : Wanted → List String → Given → Except Request Given
  | .nothing, [], g => .ok g
  | .value _, [], _ => .error .misuse
  | .value choice, argument :: rest, g =>
    if isOption argument then .error .misuse
    else do
      read choices .nothing rest (← g.option choice argument)
  | .nothing, argument :: rest, g =>
    if argument = "--" then rest.foldlM Given.word g
    else if isOption argument then do
      let (g, wanted) ← readOption choices argument g
      read choices wanted rest g
    else do
      read choices .nothing rest (← g.word argument)

/-- The commands that do something, with their options. -/
def commands : List (String × List Choice) := [("patch", Choice.patch), ("disasm", Choice.disasm)]

/-- The arguments of a command as a request. -/
def request (json : Bool) (name : String) (g : Given) : Request :=
  match g.words with
  | [path] =>
    let json := json || g.has "json"
    if name = "patch" then
      .run json (.patch path ((g.value? "os").bind Platform.ofName?) (g.values "assembly")
        (g.value? "output"))
    else
      .run json (.disasm path ((g.value? "type").getD "Starter")
        ((g.value? "method").getD "Awake"))
  | _ => .misuse

/-- Asks for help on a command. -/
def helpOn : List String → Request
  | [] => .help .program
  | [name] => ((Topic.commands.lookup name).map Request.help).getD .misuse
  | _ => .misuse

/-- Reads the arguments in front of the command, and then those of the command. -/
def readTop : List String → Given → Request
  | [], _ => .misuse
  | argument :: rest, g =>
    if isOption argument then
      match readOption Choice.top argument g with
      | .error request => request
      | .ok (g, _) => readTop rest g
    else if argument = "help" then helpOn rest
    else
      match commands.lookup argument with
      | none => .misuse
      | some choices =>
        match read choices .nothing rest ⟨[], []⟩ with
        | .error request => request
        | .ok given => request (g.has "json") argument given

/-- What the arguments ask for. -/
def Request.ofArguments (arguments : List String) : Request := readTop arguments ⟨[], []⟩

end IlSplice.Cli
