import CommandGrammar.Schema
import CommandGrammar.Value.Document

/-!
# Schemas as JSON

A schema is written as an object with a member for each part of it; parts that are
absent or, for the allowed texts, empty are left out. The reader takes the members in
written order and stops at the first one at fault. Unknown members are ignored, and
every part but names, forms and triggers may be missing. A record may also be written
as an array of its parts alone, in their declared order and as many of them as are
wanted. Readers of the caller's own are not part of the document.
-/

namespace CommandGrammar

/-- Why a document is no schema. -/
inductive DocumentFault where
  /-- An arity is a text other than the names of the open arity. -/
  | arity (text : String)
  /-- A part is missing, repeated or of the wrong kind. -/
  | shape
deriving DecidableEq, Repr

/-- The wording of a fault, where it has one. -/
def DocumentFault.message? : DocumentFault → Option String
  | .arity text => some ("invalid arity: " ++ text)
  | .shape => none

/-- What a reader of documents yields. -/
abbrev Read := Except DocumentFault

namespace Document

/-- Succeeds with what is there. -/
def present {α : Type} : Option α → Read α
  | some x => .ok x
  | none => .error .shape

/-- Reads a part that must not have been read before. -/
def once {α : Type} (before : Option α) (read : Read α) : Read (Option α) :=
  if before.isSome then .error .shape else read.map some

/-- Reads a text. -/
def text (document : Json) : Read String := present document.string?

/-- Reads a truth value. -/
def truth (document : Json) : Read Bool := present document.bool?

/-- Reads an array of texts. -/
def texts (document : Json) : Read (List String) := do
  (← present document.array?).mapM text

/-- Reads a part that may be null. -/
def nullable {α : Type} (read : Json → Read α) : Json → Read (Option α)
  | .null => .ok none
  | document => (read document).map some

/-- Reads an arity: a count of 32 bits or a name of the open arity. -/
def arity : Json → Read Arity
  | .integer n => if 0 ≤ n ∧ n.toNat < UInt32.size then .ok (.exactly n.toNat.toUInt32) else .error .shape
  | .string "unbounded" | .string "*" => .ok .unbounded
  | .string text => .error (.arity text)
  | _ => .error .shape

/-- Reads a record's parts from an array, in which they stand in the order of their names. -/
def inOrder {α : Type} (part : α → String × Json → Read α) :
    List String → List Json → α → Read α
  | _, [], parts => .ok parts
  | [], _ :: _, _ => .error .shape
  | name :: names, item :: items, parts => do
    inOrder part names items (← part parts (name, item))

/-- The kind of value that a name stands for. -/
def kindNamed : String → Read ValueKind
  | "string" => .ok .string
  | "integer" => .ok .integer
  | "float" => .ok .float
  | "bool" => .ok .bool
  | "path" => .ok .path
  | _ => .error .shape

/-- Reads the name of a kind of value, which may also be the only member of an object and
then holds nothing. -/
def kind : Json → Read ValueKind
  | .string name | .object [(name, .null)] => kindNamed name
  | _ => .error .shape

/-- The parts of a form that have been read. -/
structure FormParts where
  /-- The triggers. -/
  triggers : Option (List String) := none
  /-- Whether a value follows. -/
  takesValue : Option Bool := none

/-- Reads a member of the form of a flag. -/
def formPart (parts : FormParts) : String × Json → Read FormParts
  | ("triggers", document) => do
    return { parts with triggers := ← once parts.triggers (texts document) }
  | ("takes_value", document) => do
    return { parts with takesValue := ← once parts.takesValue (truth document) }
  | _ => .ok parts

/-- The names of the parts of the form of a flag, in order. -/
def formNames : List String := ["triggers", "takes_value"]

/-- The form of a flag, once all parts have been read. -/
def FormParts.form (parts : FormParts) : Read ParamForm := do
  return .flag (← present parts.triggers) (parts.takesValue.getD false)

/-- Reads the form of a parameter, which names its type. In an array the type comes first. -/
def form : Json → Read ParamForm
  | .object members =>
    match members.filter (·.1 == "type"), members.filter (·.1 != "type") with
    | [(_, .string "positional")], _ => .ok .positional
    | [(_, .string "flag")], rest => do (← rest.foldlM formPart {}).form
    | _, _ => .error .shape
  | .array [.string "positional"] => .ok .positional
  | .array (.string "flag" :: items) => do (← inOrder formPart formNames items {}).form
  | _ => .error .shape

/-- The parts of a parameter that have been read. -/
structure ParamParts where
  /-- The name. -/
  name : Option String := none
  /-- The form. -/
  form : Option ParamForm := none
  /-- The arity. -/
  arity : Option Arity := none
  /-- Whether it must occur. -/
  required : Option Bool := none
  /-- Whether it may occur any number of times. -/
  multiple : Option Bool := none
  /-- The default. -/
  default : Option (Option Value) := none
  /-- The kind of its values. -/
  kind : Option ValueKind := none
  /-- The allowed texts. -/
  choices : Option (List String) := none
  /-- The description. -/
  description : Option (Option String) := none

/-- Reads a member of a parameter. -/
def paramPart (parts : ParamParts) : String × Json → Read ParamParts
  | ("name", document) => do return { parts with name := ← once parts.name (text document) }
  | ("kind", document) => do return { parts with form := ← once parts.form (form document) }
  | ("arity", document) => do return { parts with arity := ← once parts.arity (arity document) }
  | ("required", document) => do
    return { parts with required := ← once parts.required (truth document) }
  | ("multiple", document) => do
    return { parts with multiple := ← once parts.multiple (truth document) }
  | ("default", document) => do
    let read := nullable (fun document => present (Value.ofJson? document)) document
    return { parts with default := ← once parts.default read }
  | ("value_type", document) => do return { parts with kind := ← once parts.kind (kind document) }
  | ("choices", document) => do
    return { parts with choices := ← once parts.choices (texts document) }
  | ("description", document) => do
    return { parts with description := ← once parts.description (nullable text document) }
  | _ => .ok parts

/-- The names of the parts of a parameter, in order. -/
def paramNames : List String :=
  ["name", "kind", "arity", "required", "multiple", "default", "value_type", "choices",
    "description"]

/-- The parameter, once all parts have been read. -/
def ParamParts.param (parts : ParamParts) : Read Param := do
  return {
    name := ← present parts.name
    form := ← present parts.form
    arity := parts.arity.getD (.exactly 1)
    required := parts.required.getD false
    multiple := parts.multiple.getD false
    default := parts.default.getD none
    kind := parts.kind.getD .string
    choices := parts.choices.getD []
    description := parts.description.getD none }

/-- Reads a parameter. -/
def param : Json → Read Param
  | .object members => do (← members.foldlM paramPart {}).param
  | .array items => do (← inOrder paramPart paramNames items {}).param
  | _ => .error .shape

/-- Reads an array of parameters. -/
def params : Json → Read (List Param)
  | .array items => items.mapM param
  | _ => .error .shape

/-- The parts of a command that have been read. -/
structure CommandParts where
  /-- The name. -/
  name : Option String := none
  /-- The description. -/
  description : Option (Option String) := none
  /-- The parameters. -/
  params : Option (List Param) := none
  /-- The subcommands. -/
  subcommands : Option (List Command) := none
  /-- Whether it must be invoked. -/
  required : Option Bool := none
  /-- The arity. -/
  arity : Option Arity := none
  /-- Whether it may be invoked any number of times. -/
  multiple : Option Bool := none

/-- Reads a member of a command other than its subcommands. -/
def commandPart (parts : CommandParts) : String × Json → Read CommandParts
  | ("name", document) => do return { parts with name := ← once parts.name (text document) }
  | ("description", document) => do
    return { parts with description := ← once parts.description (nullable text document) }
  | ("params", document) => do
    return { parts with params := ← once parts.params (params document) }
  | ("required", document) => do
    return { parts with required := ← once parts.required (truth document) }
  | ("arity", document) => do return { parts with arity := ← once parts.arity (arity document) }
  | ("multiple", document) => do
    return { parts with multiple := ← once parts.multiple (truth document) }
  | _ => .ok parts

/-- The names of the parts of a command, in order. -/
def commandNames : List String :=
  ["name", "description", "params", "subcommands", "required", "arity", "multiple"]

/-- The command, once all parts have been read. -/
def CommandParts.command (parts : CommandParts) : Read Command := do
  return {
    name := ← present parts.name
    description := parts.description.getD none
    params := parts.params.getD []
    subcommands := parts.subcommands.getD []
    required := parts.required.getD false
    arity := parts.arity.getD (.exactly 1)
    multiple := parts.multiple.getD false }

mutual

/-- Reads a command tree. -/
def command : Json → Read Command
  | .object members => do (← commandParts members {}).command
  | .array items => do (← commandInOrder commandNames items {}).command
  | _ => .error .shape

/-- Reads the members of a command. -/
def commandParts : List (String × Json) → CommandParts → Read CommandParts
  | [], parts => .ok parts
  | (name, document) :: rest, parts => do
    if name = "subcommands" then
      let read := commands document
      commandParts rest { parts with subcommands := ← once parts.subcommands read }
    else
      commandParts rest (← commandPart parts (name, document))

/-- Reads the parts of a command from an array. -/
def commandInOrder : List String → List Json → CommandParts → Read CommandParts
  | _, [], parts => .ok parts
  | [], _ :: _, _ => .error .shape
  | name :: names, item :: items, parts => do
    if name = "subcommands" then
      let read := commands item
      commandInOrder names items { parts with subcommands := ← once parts.subcommands read }
    else
      commandInOrder names items (← commandPart parts (name, item))

/-- Reads an array of command trees. -/
def commands : Json → Read (List Command)
  | .array items => commandItems items
  | _ => .error .shape

/-- Reads the items of an array of command trees. -/
def commandItems : List Json → Read (List Command)
  | [] => .ok []
  | item :: rest => do
    let first ← command item
    let others ← commandItems rest
    return first :: others

end

/-- The document of an arity. -/
def ofArity : Arity → Json
  | .exactly count => .integer count.toNat
  | .unbounded => .string "unbounded"

/-- The name of a kind of value. -/
def kindName : ValueKind → String
  | .string => "string"
  | .integer => "integer"
  | .float => "float"
  | .bool => "bool"
  | .path => "path"

/-- The document of a form. -/
def ofForm : ParamForm → Json
  | .flag triggers takesValue => .object [("type", .string "flag"),
      ("triggers", .array (triggers.map .string)), ("takes_value", .bool takesValue)]
  | .positional => .object [("type", .string "positional")]

/-- A member for a part that is there. -/
def memberOf {α : Type} (name : String) (write : α → Json) : Option α → List (String × Json)
  | some x => [(name, write x)]
  | none => []

/-- The document of a parameter. -/
def ofParam (param : Param) : Json :=
  .object ([("name", .string param.name), ("kind", ofForm param.form),
      ("arity", ofArity param.arity), ("required", .bool param.required),
      ("multiple", .bool param.multiple)] ++
    memberOf "default" Value.toJson param.default ++
    [("value_type", .string (kindName param.kind))] ++
    (if param.choices.isEmpty then [] else [("choices", .array (param.choices.map .string))]) ++
    memberOf "description" .string param.description)

mutual

/-- The document of a command tree. -/
def ofCommand : Command → Json
  | { name, description, params, subcommands, required, arity, multiple } =>
    .object ([("name", .string name)] ++ memberOf "description" .string description ++
      [("params", .array (params.map ofParam)), ("subcommands", .array (ofCommands subcommands)),
        ("required", .bool required), ("arity", ofArity arity), ("multiple", .bool multiple)])

/-- The documents of command trees. -/
def ofCommands : List Command → List Json
  | [] => []
  | command :: rest => ofCommand command :: ofCommands rest

end

end Document

end CommandGrammar
