import CommandGrammar.Layer.Dotenv
import CommandGrammar.Layer.Variable
import CommandGrammar.Toml.Reader

/-!
# Layers of settings

A layer reads settings from one place and gives them as a nested map: the names of
subcommands lead to the inner maps and the names of parameters to the values. The
places are a command line, variables, files of variables, TOML files, and the
declared defaults.
-/

namespace CommandGrammar

/-- A place to read settings from. -/
inductive Source where
  /-- A command line, whose occurrences are checked or not. -/
  | commandLine (arguments : List String) (validate : Bool)
  /-- Given variables, under a name of their own. -/
  | bindings (label stem : String) (bindings : Keyed String String)
  /-- The variables of the environment. -/
  | environment (stem : String)
  /-- A file of variables, which may be required. -/
  | variableFile (path stem : String) (required : Bool)
  /-- A TOML file, which may be required. -/
  | tomlFile (path : String) (required : Bool)
  /-- The declared defaults. -/
  | defaults
  /-- A given value, under a name of its own. -/
  | fixed (label : String) (value : Value)

namespace Source

/-- The name of a layer. -/
def name : Source → String
  | .commandLine .. => "cli"
  | .bindings label _ _ => label
  | .environment _ => "env"
  | .variableFile .. => "env_file"
  | .tomlFile .. => "toml"
  | .defaults => "defaults"
  | .fixed label _ => label

end Source

namespace Model

/-- The layer of a command line: what occurs on it, and no defaults. -/
def readCommandLine (model : Model) (arguments : List String) (validate : Bool) :
    Except LayerFault Value := do
  let table := Table.ofGrammar (model.grammar (if validate then .deferred else .counted))
  let parse ← (table.parseArguments arguments).mapError fun fault => .engine (.parse fault)
  if validate then
    if let some violation := model.violation? parse then
      throw (.engine (.occurrences violation))
  let resolved ← (model.resolve .omitted parse).mapError fun fault => .engine (.ofResolve fault)
  return resolved.toValue

/-- The value of a parameter in a TOML document: a scalar decodes as text, an array of them
item by item, its other items left out; a table is no value. -/
def tomlSetting (path : String) (node : Node) (found : Toml) : Except LayerFault (Option Value) :=
  match found with
  | .array items =>
    ((items.filterMap Toml.scalarText?).mapM (node.decodeFrom "toml" path)).map (some <| .list ·)
  | .tables _ => .ok (some (.list []))
  | scalar =>
    match scalar.scalarText? with
    | none => .ok none
    | some raw => (node.decodeFrom "toml" path raw).map fun value =>
        some (if node.collects then .list [value] else value)

/-- The settings found in a TOML document, in the order of the parameters. -/
def tomlSettings (root : Toml) : List (String × Node) → Except LayerFault (List (String × Value))
  | [] => .ok []
  | (path, node) :: rest => do
    let setting ← match root.at? (Text.segments path) with
      | none => .ok none
      | some found => tomlSetting path node found
    let others ← tomlSettings root rest
    return (setting.map fun value => (path, value)).toList ++ others

/-- The layer of a TOML text. A table named like the root command stands for the document. -/
def readToml (model : Model) (text : String) : Except LayerFault Value := do
  match Toml.read? text with
  | none => throw .toml
  | some document =>
    let root := match document.at? [model.root.name] with
      | some (.table origin entries) => .table origin entries
      | _ => document
    return .nest (← tomlSettings root model.fieldPaths)

/-- The layer of the declared defaults of parameters that are not required. -/
def readDefaults (model : Model) : Value :=
  .nest (model.fieldPaths.filterMap fun (path, node) =>
    if node.required then none else node.default.map fun value => (path, value))

/-- The layer of a file of variables. -/
def readVariableFile (model : Model) (surroundings : Surroundings) (path stem : String) :
    Except LayerFault Value := do
  let text ← (surroundings.entry path).readText.mapError fun _ => .dotenv
  match Dotenv.read? surroundings.environment text with
  | none => throw .dotenv
  | some bindings => model.readVariables "env_file" stem bindings

/-- A file's layer; a missing file is empty unless it is required. -/
def readFile (entry : Entry) (path : String) (required : Bool) (read : Except LayerFault Value) :
    Except LayerFault Value :=
  if entry.isPresent then read
  else if required then .error (.missingFile path) else .ok (.map [])

/-- The settings of a layer. -/
def read (model : Model) (surroundings : Surroundings) : Source → Except LayerFault Value
  | .commandLine arguments validate => model.readCommandLine arguments validate
  | .bindings label stem bindings => model.readVariables label stem bindings
  | .environment stem => model.readVariables "env" stem surroundings.environment
  | .variableFile path stem required =>
    readFile (surroundings.entry path) path required
      (model.readVariableFile surroundings path stem)
  | .tomlFile path required =>
    readFile (surroundings.entry path) path required (do
      let text ← (surroundings.entry path).readText.mapError .file
      model.readToml text)
  | .defaults => .ok model.readDefaults
  | .fixed _ value => .ok value

end Model

end CommandGrammar
