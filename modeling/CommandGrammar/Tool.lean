import CommandGrammar.Layer.Document
import CommandGrammar.Schema.File
import CommandGrammar.Tool.Request
import CommandGrammar.Tree.Document
import CommandGrammar.Yaml

/-!
# The tool

The tool answers one request from the files and variables around it: it prints a
result, and reports a fault on a line of its own. The code is zero for a result, one
for a fault and two for misuse.
-/

namespace CommandGrammar.Tool

/-- Why a request fails. -/
inductive Fault where
  /-- A file cannot be read. -/
  | file (path : String) (fault : FileFault)
  /-- A file holds no schema. -/
  | document (path : String)
  /-- A schema declares no command tree. -/
  | model (path : String) (fault : SchemaFault)
  /-- The layers cannot be stacked. -/
  | stack (path : String) (fault : LayerFault)
  /-- A schema has problems, which have been listed. -/
  | problems (path : String) (count : Nat)
  /-- A command line has no parse tree. -/
  | tree (fault : ParseFault)
  /-- A command line yields no fields. -/
  | line (failure : Failure)
  /-- Some lines of a file yield no fields. -/
  | lines (failed total : Nat)
  /-- Settings cannot be read. -/
  | settings (fault : LayerFault)
deriving DecidableEq, Repr

/-- The wording of a fault. -/
def Fault.message : Fault → String
  | .file path fault => "Failed to read '" ++ path ++ "': " ++ fault.message
  | .document path => "Failed to parse '" ++ path ++ "'"
  | .model path fault => "Invalid model '" ++ path ++ "': " ++ fault.message
  | .stack path fault => "Invalid model '" ++ path ++ "': " ++ fault.message
  | .problems path count => toString count ++ " problem(s) in '" ++ path ++ "'"
  | .tree fault => fault.message
  | .line failure => failure.message
  | .lines failed total =>
    toString failed ++ " of " ++ toString total ++ " line(s) failed to parse"
  | .settings fault => fault.message

/-- What a request comes to. -/
structure Report where
  /-- The printed result. -/
  output : String := ""
  /-- Lines that come before the fault. -/
  notes : List String := []
  /-- The fault. -/
  fault : Option Fault := none
deriving DecidableEq, Repr

/-- What is left when the tool is done. -/
structure Outcome where
  /-- The code. -/
  code : Nat
  /-- The text of standard output. -/
  output : String
  /-- The text of standard error. -/
  errors : String
deriving DecidableEq, Repr

/-- The outcome of a report. -/
def Report.outcome (report : Report) : Outcome where
  code := if report.fault.isSome then 1 else 0
  output := report.output
  errors := String.join ((report.notes ++
    (report.fault.map fun fault => "error: " ++ fault.message).toList).map (· ++ "\n"))

/-- A document as it is printed. Blanks at the end of it, also in its last text, are left out. -/
def Format.print (format : Format) (document : Json) : String :=
  Text.trimEnd (match format with
    | .json => document.pretty
    | .yaml => Yaml.text document) ++ "\n"

/-- The text of a file. -/
def readFile (surroundings : Surroundings) (path : String) : Except Fault String :=
  (surroundings.entry path).readText.mapError (.file path)

/-- What follows the last dot of a file's name, unless the name begins with that dot. -/
def extension? (path : String) : Option String :=
  match Text.split '.' ((Text.split '/' path).getLast?.getD "") with
  | [] | [_] | ["", _] => none
  | _ :: rest => rest.getLast?

/-- The format of a file by its name. -/
def schemaFormat (path : String) : SchemaFormat :=
  if extension? path = some "yaml" ∨ extension? path = some "yml" then .yaml else .json

/-- The schema in a file. -/
def readSchema (surroundings : Surroundings) (path : String) : Except Fault Command := do
  match (schemaFormat path).read? (← readFile surroundings path) with
  | some schema => return schema
  | none => throw (.document path)

/-- The app of the schema in a file. -/
def readApp (surroundings : Surroundings) (path : String) (validate : Bool) :
    Except Fault App := do
  (App.ofSchema (← readSchema surroundings path) { validate }).mapError (.model path)

/-- Checks a model. -/
def check (surroundings : Surroundings) (path : String) : Except Fault Report := do
  let schema ← readSchema surroundings path
  match Model.ofSchema schema with
  | .error _ =>
    let faults := schema.faults
    return { notes := faults.map fun fault => path ++ ": " ++ fault.message
             fault := some (.problems path faults.length) }
  | .ok model =>
    let grammar := model.grammar .counted
    return { output := "Model '" ++ schema.name ++ "' is valid: " ++ toString grammar.size ++
               " rule(s), fingerprint " ++ grammar.fingerprint ++ ".\n" }

/-- Prints a grammar or its fingerprint. -/
def printGrammar (surroundings : Surroundings) (path : String) (fingerprintOnly : Bool) :
    Except Fault Report := do
  let model ← (Model.ofSchema (← readSchema surroundings path)).mapError (.model path)
  let grammar := model.grammar .counted
  return { output := if fingerprintOnly then grammar.fingerprint ++ "\n" else grammar.listing }

/-- The fields of an invocation as a document. -/
def fieldsDocument (resolved : Resolved) : Json := resolved.toValue.toJson

/-- Prints the parse tree of a command line. -/
def printTree (surroundings : Surroundings) (path : String) (format : Format)
    (line : List String) : Except Fault Report := do
  let app ← readApp surroundings path true
  let parse ← (app.strict.parseArguments line).mapError .tree
  return { output := format.print parse.toJson }

/-- Prints the fields that a command line resolves to. -/
def printFields (surroundings : Surroundings) (path : String) (validate : Bool)
    (format : Format) (line : List String) : Except Fault Report := do
  let app ← readApp surroundings path validate
  let resolved ← (app.resolveArguments line).mapError .line
  return { output := format.print (fieldsDocument resolved) }

/-- The lines of a text that hold a command line, trimmed, with their numbers. Blank lines and
lines that begin with a number sign hold none. -/
def commandLines (text : String) : List (Nat × String) :=
  ((Text.split '\n' text).zipIdx 1).filterMap fun (line, number) =>
    let line := Text.trim line
    if line = "" ∨ line.toList.head? = some '#' then none else some (number, line)

/-- The answer to one line of a file. -/
def lineEntry (app : App) (number : Nat) (line : String) : Json × Bool :=
  let place := [("line", Json.integer number), ("input", .string line)]
  match app.resolveLine line with
  | .ok resolved => (.object (place ++ [("fields", fieldsDocument resolved)]), true)
  | .error failure => (.object (place ++ [("error", .string failure.message)]), false)

/-- Parses the lines of a file. -/
def runBatch (surroundings : Surroundings) (path input : String) (validate : Bool) :
    Except Fault Report := do
  let app ← readApp surroundings path validate
  let text ← readFile surroundings input
  let entries := (commandLines text).map fun (number, line) => lineEntry app number line
  let failed := entries.countP fun entry => !entry.2
  return { output := Format.json.print (.array (entries.map Prod.fst))
           fault := if failed = 0 then none else some (.lines failed entries.length) }

/-- Resolves settings. The command line comes first, if there is one; then the environment, the
file of variables, the TOML file, and the defaults. -/
def resolveSettings (surroundings : Surroundings) (path : String)
    (stem variableFile config : Option String) (withOrigins : Bool) (format : Format)
    (line : List String) : Except Fault Report := do
  let schema ← readSchema surroundings path
  let stem := stem.getD schema.name
  let sources := (if line.isEmpty then [] else [Source.commandLine line true]) ++
    [.environment stem] ++ (variableFile.map fun file => .variableFile file stem true).toList ++
    (config.map fun file => .tomlFile file true).toList
  let stack ← (Stack.ofSchema schema sources true).mapError (.stack path)
  let resolution ← (stack.read surroundings).mapError .settings
  let document := if withOrigins then resolution.toJson else resolution.value.toJson
  return { output := format.print document }

/-- Answers a request. -/
def answer (surroundings : Surroundings) : Request → Except Fault Report
  | .check model => check surroundings model
  | .grammar model fingerprintOnly => printGrammar surroundings model fingerprintOnly
  | .tree model format line => printTree surroundings model format line
  | .parse model validate format line => printFields surroundings model validate format line
  | .batch model input validate => runBatch surroundings model input validate
  | .resolve model stem variableFile config withOrigins format line =>
    resolveSettings surroundings model stem variableFile config withOrigins format line

/-- Runs the tool, called by the name of a program, on its arguments. -/
def run (program : String) (surroundings : Surroundings) (arguments : List String) : Outcome :=
  match Request.read arguments with
  | .error (.help topic) => ⟨0, helpPage program topic, ""⟩
  | .error .misuse => ⟨2, "", "error: the arguments do not fit\n\n" ++ helpPage program .tool⟩
  | .ok request =>
    match answer surroundings request with
    | .ok report => report.outcome
    | .error fault => Report.outcome { fault := some fault }

end CommandGrammar.Tool
