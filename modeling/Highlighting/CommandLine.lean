-- The command line: what the arguments ask for, and what the program answers.
import Highlighting.Configuration
import Highlighting.Json

namespace Highlighting.CommandLine

/-! ## Commands and options -/

/-- What the program can do. -/
inductive Command where
  | highlight
  | auto
  | list
  deriving DecidableEq, Repr

namespace Command

def all : List Command := [highlight, auto, list]

def name : Command → String
  | highlight => "highlight"
  | auto => "auto"
  | list => "list"

def about : Command → String
  | highlight => "Highlight a file as the given language"
  | auto => "Highlight a file in whichever language fits best"
  | list => "List registered languages"

/-- The arguments without a name: each has one, a help text, and may have to
be given. -/
def arguments : Command → List (String × String × Bool)
  | highlight => [
      ("language", "Language name or alias", true),
      ("path", "File to highlight (stdin when omitted)", false)]
  | auto => [("path", "File to highlight (stdin when omitted)", false)]
  | list => []

end Command

/-- An argument with a name. -/
inductive Flag where
  | config
  | lead
  | subset
  | help
  | version
  deriving DecidableEq, Repr

namespace Flag

/-- The long name. -/
def name : Flag → String
  | config => "config"
  | lead => "prefix"
  | subset => "subset"
  | help => "help"
  | version => "version"

/-- The short name. -/
def letter : Flag → Char
  | config => 'c'
  | lead => 'p'
  | subset => 's'
  | help => 'h'
  | version => 'V'

/-- Whether a value follows. -/
def takesValue : Flag → Bool
  | config | lead | subset => true
  | help | version => false

def about : Flag → String
  | config => "Configuration file layered over the built-in defaults"
  | lead => "Class name prefix (e.g., 'hljs-', or '' for none)"
  | subset => "Comma separated candidate languages"
  | help => "Print help"
  | version => "Print version"

end Flag

/-- The flags that may be given before a command (`none`) or after it, in the
order in which the help lists them. -/
def flags : Option Command → List Flag
  | none => [.config, .lead, .help, .version]
  | some .auto => [.config, .subset, .lead, .help]
  | some _ => [.config, .lead, .help]

/-! ## Help -/

def programName : String := "hilite"

def version : String := "0.1.0"

/-- The rows of a table with the second column set off. -/
def columns (rows : List (String × String)) : String :=
  let width := (rows.map (·.1.length)).foldl max 0
  String.join (rows.map fun (a, b) =>
    "  " ++ a ++ String.ofList (List.replicate (width - a.length + 2) ' ') ++ b ++ "\n")

/-- A flag as the help shows it. -/
def Flag.shown (f : Flag) : String :=
  let value := if f.takesValue then " <" ++ f.name ++ ">" else ""
  "-" ++ f.letter.toString ++ ", --" ++ f.name ++ value

/-- An argument as the help shows it. -/
def shownArgument (name : String) (required : Bool) : String :=
  if required then "<" ++ name ++ ">" else "[" ++ name ++ "]"

def flagTable (c : Option Command) : String :=
  "\nOptions:\n" ++ columns ((flags c).map fun f => (f.shown, f.about))

def helpAbout : String := "Print this message or the help of the given subcommand(s)"

/-- The help for the whole program. -/
def programHelp : String :=
  "Grammar-driven syntax highlighting to a JSON node tree\n\nUsage: " ++ programName ++
    " [OPTIONS] <COMMAND>\n\nCommands:\n" ++
    columns (Command.all.map (fun c => (c.name, c.about)) ++ [("help", helpAbout)]) ++ flagTable none

/-- The help for a command. -/
def commandHelp (c : Command) : String :=
  let shown := c.arguments.map fun (name, about, required) => (shownArgument name required, about)
  c.about ++ "\n\nUsage: " ++ String.intercalate " " ([programName, c.name, "[OPTIONS]"] ++ shown.map (·.1)) ++
    "\n" ++ (if shown.isEmpty then "" else "\nArguments:\n" ++ columns shown) ++ flagTable (some c)

/-- The help for the command that gives help. -/
def helpHelp : String :=
  helpAbout ++ "\n\nUsage: " ++ programName ++ " help [COMMAND]...\n\nArguments:\n" ++
    columns [("[COMMAND]...", "Print help for the subcommand(s)")]

/-! ## Reading arguments -/

/-- What ends the reading of arguments early. -/
inductive Stop where
  /-- The arguments do not fit. -/
  | usage
  /-- A text was asked for. -/
  | text (s : String)
  deriving DecidableEq, Repr

/-- The arguments read so far. -/
structure Arguments where
  values : List (Flag × String) := []
  positionals : List String := []
  /-- A flag whose value comes next. -/
  pending : Option Flag := none
  /-- No more flags follow. -/
  plain : Bool := false

namespace Arguments

/-- Gives a flag its value, which it may have only once. -/
def give (a : Arguments) (f : Flag) (value : String) : Except Stop Arguments :=
  if (a.values.lookup f).isSome then .error .usage
  else .ok { a with values := a.values ++ [(f, value)], pending := none }

/-- Takes a flag, with the value that is attached to it if there is one. -/
def take (c : Option Command) (a : Arguments) (f : Flag) (attached : Option String) :
    Except Stop Arguments :=
  match f with
  | .help => .error (if attached.isSome then .usage else .text (match c with
    | none => programHelp
    | some c => commandHelp c))
  | .version => .error (if attached.isSome then .usage else .text (programName ++ " " ++ version ++ "\n"))
  | f =>
    match attached with
    | some v => a.give f v
    | none => .ok { a with pending := some f }

/-- Takes a long flag, given without its dashes. -/
def takeLong (c : Option Command) (a : Arguments) (body : List Char) : Except Stop Arguments :=
  let name := body.takeWhile (· != '=')
  let attached := match body.drop name.length with
    | [] => none
    | _ :: v => some (String.ofList v)
  match (flags c).find? (·.name == String.ofList name) with
  | some f => a.take c f attached
  | none => .error .usage

/-- Takes a short flag, given without its dash. The value may be attached,
with an equals sign or without one. -/
def takeShort (c : Option Command) (a : Arguments) (letter : Char) (rest : List Char) :
    Except Stop Arguments :=
  match (flags c).find? (·.letter == letter) with
  | none => .error .usage
  | some f =>
    if !f.takesValue then a.take c f none
    else match rest with
      | [] => a.take c f none
      | '=' :: v => a.take c f (some (String.ofList v))
      | v => a.take c f (some (String.ofList v))

/-- Takes one argument. A flag that waits for its value takes anything that
does not look like a flag. -/
def feed (c : Option Command) (limit : Nat) (a : Arguments) (arg : String) :
    Except Stop Arguments :=
  let positional : Except Stop Arguments :=
    if a.positionals.length < limit then .ok { a with positionals := a.positionals ++ [arg] }
    else .error .usage
  let flag := fun (taken : Except Stop Arguments) => if a.pending.isSome then .error .usage else taken
  if a.plain then positional
  else match arg.toList with
    | ['-', '-'] => flag (.ok { a with plain := true })
    | '-' :: '-' :: body => flag (a.takeLong c body)
    | '-' :: letter :: rest => flag (a.takeShort c letter rest)
    | _ =>
      match a.pending with
      | some f => a.give f arg
      | none => positional

/-- No flag may be left without its value. -/
def finish (a : Arguments) : Except Stop Arguments :=
  if a.pending.isSome then .error .usage else .ok a

end Arguments

/-- What the arguments ask for. -/
structure Request where
  command : Command
  config : Option String
  lead : Option String
  subset : Option (List String)
  positionals : List String
  deriving DecidableEq, Repr

/-- The file that holds the text of a request; `none` if it is the input. -/
def Request.sourcePath (r : Request) : Option String :=
  match r.command with
  | .highlight => r.positionals[1]?
  | .auto => r.positionals[0]?
  | .list => none

/-- Whether a request reads the input. -/
def Request.readsInput (r : Request) : Bool := r.command != .list && r.sourcePath.isNone

/-- Reads the arguments behind a command. A flag that was given before it as
well takes the value given here. -/
def readCommand (outer : Arguments) (c : Command) (args : List String) : Except Stop Request := do
  let a ← args.foldlM (fun a arg => Arguments.feed (some c) c.arguments.length a arg) {}
  let a ← a.finish
  if a.positionals.length < (c.arguments.filter (·.2.2)).length then throw .usage
  let value := fun (f : Flag) => a.values.lookup f <|> outer.values.lookup f
  return {
    command := c
    config := value .config
    lead := value .lead
    subset := (value .subset).map fun s => s.splitOn ","
    positionals := a.positionals }

/-- The help for a row of commands. -/
def readHelp : List String → Stop
  | [] => .text programHelp
  | [name] =>
    match Command.all.find? (·.name == name) with
    | some c => .text (commandHelp c)
    | none => if name == "help" then .text helpHelp else .usage
  | _ => .usage

/-- Reads the arguments before the command, and then the command. -/
def readFrom (outer : Arguments) : List String → Except Stop Request
  | [] => .error .usage
  | arg :: rest =>
    let free := outer.pending.isNone && !outer.plain
    match if free then Command.all.find? (·.name == arg) else none with
    | some c => readCommand outer c rest
    | none =>
      if free && arg == "help" then .error (readHelp rest)
      else match outer.feed none 0 arg with
        | .ok outer => readFrom outer rest
        | .error e => .error e

/-- What the arguments ask for. -/
def read (args : List String) : Except Stop Request := readFrom {} args

/-! ## Answers -/

/-- What the program prints, and the code with which it ends. -/
structure Outcome where
  code : Nat
  output : String := ""
  errors : String := ""
  deriving DecidableEq, Repr

/-- What the program can see of the world. -/
structure World where
  input : String
  /-- The text of a file, or else why it cannot be read. -/
  file : String → Except String String
  environment : List (String × String)

/-- The first word of the variables that hold settings. -/
def variableLead : String := "HILITE"

/-- The path of the setting for what class names start with. -/
def leadPath : String := "output.prefix"

/-- The program fails with a message. -/
def Outcome.fail (message : String) : Outcome := { code := 1, errors := message ++ "\n" }

/-- What is wrong with the settings, in words. -/
def settingsMessage : SettingsError → String
  | .path text => "cannot read the path " ++ text
  | .missingFile => "configuration file not found"
  | .file _ => "the configuration file is not valid"
  | .type => "a setting has the wrong type"
  | .form => "a setting is missing or has the wrong form"

/-- The configuration for a request: the file, then the environment, then
the flag. -/
def configuration (w : World) (r : Request) : Except SettingsError Configuration := do
  let files : List Layer := r.config.toList.map fun path => .file (w.file path).toOption true
  let layers : Layers := { layers := files ++ [.environment variableLead] }
  let layers ← match r.lead with
    | some lead => layers.override leadPath (.text lead)
    | none => pure layers
  Configuration.load layers w.environment

/-- The text to highlight: of a file, or else the input. -/
def World.source (w : World) (path : Option String) : Except String String :=
  match path with
  | some p => (w.file p).mapError ("Error reading file: " ++ ·)
  | none => .ok w.input

/-- Prints a result. -/
def report (h : Except HighlightError Highlighted) : Outcome :=
  match h with
  | .ok h => { code := 0, output := h.json.text ++ "\n" }
  | .error e => .fail ("Highlight error: " ++ e.message)

/-- Does what a request asks for. -/
def perform (w : World) (r : Request) : Outcome :=
  match configuration w r with
  | .error e => .fail ("Error loading configuration: " ++ settingsMessage e)
  | .ok config =>
    let registry := config.registry
    match r.command with
    | .highlight =>
      match w.source r.sourcePath with
      | .error e => .fail e
      | .ok text => report (registry.highlight (r.positionals.headD "") text config.highlightOptions)
    | .auto =>
      match w.source r.sourcePath with
      | .error e => .fail e
      | .ok text =>
        let options := config.detectOptions
        let options := match r.subset with
          | some names => { options with subset := some names }
          | none => options
        report (registry.detect text options)
    | .list =>
      { code := 0
        output := "Registered languages:\n\n" ++
          String.join (registry.names.map fun name => "  " ++ name ++ "\n") }

/-- The variables that hold the settings that have defaults. -/
def variableNames : List String :=
  Configuration.defaults.entries.flatMap fun (group, s) =>
    let lead := variableLead ++ "_" ++ group.toUpper
    lead :: s.entries.map fun (name, _) => lead ++ "__" ++ name.toUpper

/-- Runs the program. Arguments that do not fit end it with code 2. -/
def run (w : World) (args : List String) : Outcome :=
  match read args with
  | .ok r => perform w r
  | .error (.text s) => { code := 0, output := s }
  | .error .usage => { code := 2, errors := programHelp }

end Highlighting.CommandLine
