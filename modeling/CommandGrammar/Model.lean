import CommandGrammar.Schema.Check

/-!
# Models

A model lists the nodes of a command tree in pre-order: a command, its parameters,
then its subcommands with all of theirs. The place in the list is the node's
number, so two parameters of one name under different commands are told apart.
-/

namespace CommandGrammar

/-- Number of a node: its place in the pre-order of the tree. -/
abbrev NodeId := Nat

/-- What a node stands for. -/
inductive NodeKind where
  /-- A flag with its triggers. -/
  | flag (triggers : List String) (takesValue : Bool)
  /-- A positional argument. -/
  | positional
  /-- A command without subcommands. -/
  | command (params : List NodeId)
  /-- A command with subcommands. -/
  | group (params subcommands : List NodeId)
deriving DecidableEq, Repr

/-- A parameter or command of a model. -/
structure Node where
  /-- Its number. -/
  id : NodeId
  /-- Its name. -/
  name : String
  /-- The command that declares it; the root has none. -/
  parent : Option NodeId
  /-- What it stands for. -/
  kind : NodeKind
  /-- How often it is expected. -/
  arity : Arity
  /-- It must occur. -/
  required : Bool
  /-- It may occur any number of times. -/
  multiple : Bool
  /-- Its decoded default. -/
  default : Option Value
  /-- The decoder of its texts. -/
  decoder : Decoder

namespace Node

/-- The node is a parameter. -/
def isParam (node : Node) : Bool :=
  match node.kind with
  | .flag .. | .positional => true
  | .command _ | .group .. => false

/-- The node is a command. -/
def isCommand (node : Node) : Bool := !node.isParam

/-- The parameters that a command declares. -/
def params (node : Node) : List NodeId :=
  match node.kind with
  | .command params | .group params _ => params
  | .flag .. | .positional => []

/-- The subcommands that a command declares. -/
def subcommands (node : Node) : List NodeId :=
  match node.kind with
  | .group _ subcommands => subcommands
  | .flag .. | .positional | .command _ => []

/-- Everything that a command declares: parameters, then subcommands. -/
def declared (node : Node) : List NodeId := node.params ++ node.subcommands

/-- Its occurrences make a sequence instead of one value. -/
def collects (node : Node) : Bool := node.multiple || node.arity != .exactly 1

/-- The count that its occurrences must have, if it is fixed. -/
def fixedCount? (node : Node) : Option Nat :=
  match node.arity with
  | .exactly count => if node.multiple then none else some count.toNat
  | .unbounded => none

/-- The number of its occurrences is not fixed by the arity. -/
def isUnbounded (node : Node) : Bool := node.multiple || node.arity == .unbounded

/-- Decodes a text. -/
def decode (node : Node) (raw : String) : Except DecodeFault Value := node.decoder.decode raw

/-- The node of a parameter. A default that cannot be decoded stays as it was declared. -/
def ofParam (id parent : NodeId) (param : Param) : Node where
  id
  name := param.name
  parent := some parent
  kind := match param.form with
    | .flag triggers takesValue => .flag triggers takesValue
    | .positional => .positional
  arity := param.arity
  required := param.required
  multiple := param.multiple
  default := param.default.map fun value =>
    match param.decoder.decodeDefault value with
    | .ok decoded => decoded
    | .error _ => value
  decoder := param.decoder

/-- The numbers of trees that follow each other from a number on. -/
def rootIds (next : NodeId) : List Command → List NodeId
  | [] => []
  | command :: rest => next :: rootIds (next + command.size) rest

/-- The node of a command. -/
def ofCommand (id : NodeId) (parent : Option NodeId) (command : Command) : Node where
  id
  name := command.name
  parent
  kind :=
    let params := List.range' (id + 1) command.params.length
    let subcommands := rootIds (id + 1 + command.params.length) command.subcommands
    if subcommands.isEmpty then .command params else .group params subcommands
  arity := command.arity
  required := command.required
  multiple := command.multiple
  default := none
  decoder := {}

mutual

/-- The nodes below a command that has a number: its parameters, then all of its subcommands. -/
def below (id : NodeId) : Command → List Node
  | { params, subcommands, .. } =>
    params.mapIdx (fun place param => ofParam (id + 1 + place) id param) ++
      belowAll (id + 1 + params.length) id subcommands

/-- The nodes of command trees under a parent that follow each other from a number on. -/
def belowAll (next parent : NodeId) : List Command → List Node
  | [] => []
  | command :: rest =>
    ofCommand next (some parent) command :: below next command ++
      belowAll (next + command.size) parent rest

end

end Node

/-- The nodes of a checked command tree. -/
structure Model where
  /-- The root, number zero. -/
  root : Node
  /-- The other nodes in pre-order, from number one on. -/
  others : List Node

namespace Model

/-- All nodes; each one's number is its place. -/
def nodes (model : Model) : List Node := model.root :: model.others

/-- The model of a schema that passes its check. -/
def ofSchema (schema : Command) : Except SchemaFault Model := do
  schema.check
  return ⟨.ofCommand 0 none schema, Node.below 0 schema⟩

/-- The node of a number. -/
def node? (model : Model) (id : NodeId) : Option Node := model.nodes[id]?

/-- The nodes of numbers. -/
def nodesOf (model : Model) (ids : List NodeId) : List Node := ids.filterMap model.node?

/-- Number of nodes. -/
def size (model : Model) : Nat := model.nodes.length

/-- The names on the way to a node, the root's left out; the fuel bounds the way. -/
def pathUpTo (model : Model) : Nat → NodeId → List String → List String
  | 0, _, path => path
  | fuel + 1, id, path =>
    match model.node? id with
    | none => path
    | some node =>
      match node.parent with
      | none => path
      | some parent => pathUpTo model fuel parent (node.name :: path)

/-- The names from below the root down to a node. -/
def fieldPath (model : Model) (id : NodeId) : List String := model.pathUpTo model.size id []

/-- The dotted path of every parameter, with its node, in pre-order. -/
def fieldPaths (model : Model) : List (String × Node) :=
  (model.nodes.filter Node.isParam).map fun node =>
    (Text.join "." (model.fieldPath node.id), node)

end Model

end CommandGrammar
