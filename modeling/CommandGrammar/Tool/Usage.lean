import CommandGrammar.Text.Split
import CommandGrammar.Text.Uppercase

/-!
# Usage of the tool

The tool has five actions. Each takes the path of a model and its own settings, and two
of them a command line after a double dash. The help pages are written from the same
description that the arguments are read by.
-/

namespace CommandGrammar.Tool

/-- What the tool can be asked to do. -/
inductive Action where
  /-- Check a model. -/
  | check
  /-- Print the grammar of a model. -/
  | grammar
  /-- Parse a command line. -/
  | parse
  /-- Parse every line of a file. -/
  | batch
  /-- Resolve settings from all layers. -/
  | resolve
deriving DecidableEq, Repr

/-- What may follow the name of a setting. -/
inductive ArgumentKind where
  /-- A path, which is not empty. -/
  | path
  /-- Any text. -/
  | text
  /-- The name of an output format. -/
  | format
  /-- A count of 64 bits. -/
  | count
deriving DecidableEq, Repr

/-- A setting of an action, given by a double dash and its name. -/
structure Setting where
  /-- The name. -/
  name : String
  /-- What it is for. -/
  about : String
  /-- What follows the name; a switch stands alone. -/
  argument : Option ArgumentKind := none
  /-- It must be given. -/
  required : Bool := false
deriving DecidableEq, Repr

/-- Whether an action takes a command line. -/
inductive LineUse where
  /-- It takes none. -/
  | absent
  /-- It may be given. -/
  | optional
  /-- It must be given. -/
  | required
deriving DecidableEq, Repr

namespace Action

/-- All actions, in the order of the help page. -/
def all : List Action := [.check, .grammar, .parse, .batch, .resolve]

/-- The name of an action. -/
def name : Action → String
  | .check => "check"
  | .grammar => "grammar"
  | .parse => "parse"
  | .batch => "batch"
  | .resolve => "resolve"

/-- The action of a name. -/
def named? (name : String) : Option Action := all.find? (·.name == name)

/-- What an action does. -/
def about : Action → String
  | .check => "Validate a command model file"
  | .grammar => "Print the grammar compiled from a command model"
  | .parse => "Parse one command line and print the resolved fields"
  | .batch => "Parse every line of a file in parallel"
  | .resolve => "Resolve configuration from the command line, environment and files"

/-- The switch that leaves out the check of the occurrences. -/
def withoutCheck : Setting := ⟨"no-validate", "Skip required/arity validation", none, false⟩

/-- The choice of an output format. -/
def outputFormat : Setting :=
  ⟨"format", "Output format [default: json] [possible values: json, yaml]", some .format, false⟩

/-- The settings of an action. -/
def settings : Action → List Setting
  | .check => []
  | .grammar => [⟨"fingerprint", "Print only the SHA-256 fingerprint of the grammar", none, false⟩]
  | .parse =>
    [withoutCheck,
      ⟨"tree", "Print the raw parse tree instead of the resolved fields", none, false⟩,
      outputFormat]
  | .batch =>
    [⟨"input", "File with one command line per line", some .path, true⟩,
      ⟨"jobs", "Number of parallel parse jobs (default: number of CPUs)", some .count, false⟩,
      withoutCheck]
  | .resolve =>
    [⟨"env-prefix", "Prefix for environment variables (default: the root command name)",
        some .text, false⟩,
      ⟨"env-file", "Optional \x60.env\x60 file", some .path, false⟩,
      ⟨"config", "Optional TOML configuration file", some .path, false⟩,
      ⟨"origins", "Include the layer that supplied each value", none, false⟩, outputFormat]

/-- Whether an action takes a command line. -/
def lineUse : Action → LineUse
  | .check | .grammar | .batch => .absent
  | .parse => .required
  | .resolve => .optional

/-- The setting of a name. -/
def setting? (action : Action) (name : String) : Option Setting :=
  action.settings.find? (·.name == name)

end Action

/-- A setting as it is written. -/
def Setting.form (setting : Setting) : String :=
  let placeholder := Text.uppercase (setting.name.map fun c => if c = '-' then '_' else c)
  "--" ++ setting.name ++ if setting.argument.isSome then " <" ++ placeholder ++ ">" else ""

/-- Lines of two columns. -/
def columns (rows : List (String × String)) : List String :=
  let width := rows.foldl (fun width row => max width row.1.length) 0
  rows.map fun row =>
    "  " ++ row.1 ++ String.ofList (List.replicate (width - row.1.length) ' ') ++ "  " ++ row.2

/-- What a help page is about. -/
inductive Topic where
  /-- The tool. -/
  | tool
  /-- One action. -/
  | action (action : Action)
  /-- The way to ask for help. -/
  | help
deriving DecidableEq, Repr

/-- The topic of a name. -/
def Topic.named? (name : String) : Option Topic :=
  if name = "help" then some .help else (Action.named? name).map .action

/-- What asking for help does. -/
def helpAbout : String := "Print this message or the help of the given subcommand(s)"

/-- The row of the setting that asks for help. -/
def helpSetting : String × String := ("-h, --help", "Print help")

/-- A help page: what it is about, how that is asked for, and headed rows of two columns. -/
def page (about : String) (usage : List String) (sections : List (String × List (String × String))) :
    String :=
  Text.join "\n" ([about, "", Text.join " " ("Usage:" :: usage)] ++
    sections.flatMap fun (heading, rows) => ["", heading ++ ":"] ++ columns rows) ++ "\n"

/-- The words that show how an action is asked for. -/
def Action.usage (action : Action) : List String :=
  let hasOptions := action.settings.any fun setting => !setting.required
  let required := (action.settings.filter Setting.required).map Setting.form
  [action.name] ++ (if hasOptions then ["[OPTIONS]"] else []) ++ required ++ ["<MODEL>"] ++
    match action.lineUse with
    | .absent => []
    | .optional => ["[-- <ARGS>...]"]
    | .required => ["-- <ARGS>..."]

/-- The arguments of an action that have no name. -/
def Action.arguments (action : Action) : List (String × String) :=
  let line := "The command line, starting with the root command name"
  ("<MODEL>", "Command model (YAML or JSON)") ::
    match action.lineUse with
    | .absent => []
    | .optional => [("[ARGS]...", line)]
    | .required => [("<ARGS>...", line)]

/-- The help page of a topic, given the name that the tool is called by. -/
def helpPage (program : String) : Topic → String
  | .tool =>
    let actions := Action.all.map fun action => (action.name, action.about)
    page "Compile command models into grammars and parse command lines against them"
      [program, "<COMMAND>"]
      [("Commands", actions ++ [("help", helpAbout)]), ("Options", [helpSetting])]
  | .action action =>
    let settings := action.settings.map fun setting => ("    " ++ setting.form, setting.about)
    page action.about (program :: action.usage)
      [("Arguments", action.arguments), ("Options", settings ++ [helpSetting])]
  | .help =>
    page helpAbout [program, "help", "[COMMAND]..."]
      [("Arguments", [("[COMMAND]...", "Print help for the subcommand(s)")])]

end CommandGrammar.Tool
