import CommandGrammar.Grammar

/-!
# Grammars of models

Each node of a model becomes one production. A flag is one of its triggers, and a
value after an optional equals sign if it takes one. A positional argument is any
token. A command is its name and its parameters in any order, bounded in number; a
group is its name and at least one of its subcommands and parameters, in any order.

The two grammars of a model differ in whether required parameters count towards
the least number of parameters. Where they do not, a line that lacks one still
parses, and the check of occurrences can name what is missing.
-/

namespace CommandGrammar

/-- Whether required parameters count towards the least number of parameters. -/
inductive RequiredParams where
  /-- They do. -/
  | counted
  /-- They are left to the check of occurrences. -/
  | deferred
deriving DecidableEq, Repr

/-- The parameter counts towards the least number: it is required and these count, or it
is not and has no default. -/
def RequiredParams.counts (mode : RequiredParams) (param : Node) : Bool :=
  if param.required then mode == .counted else param.default.isNone

namespace Model

/-- The sum of counts. It is a number of 32 bits like the counts, and wraps around. -/
def wrappingSum (counts : List Nat) : Nat :=
  (counts.foldr (fun count total => UInt32.ofNat count + total) 0).toNat

/-- The least number of parameters of a command; one whose count is open counts once. -/
def minParams (model : Model) (mode : RequiredParams) (command : Node) : Nat :=
  wrappingSum (((model.nodesOf command.params).filter mode.counts).map fun param =>
    param.fixedCount?.getD 1)

/-- The counts of the parameters of a command, if every one is fixed. -/
def fixedCounts? (model : Model) (command : Node) : Option (List Nat) :=
  (model.nodesOf command.params).mapM Node.fixedCount?

/-- The greatest number of parameters of a command, if every count is fixed. -/
def maxParams (model : Model) (command : Node) : Option Nat :=
  (model.fixedCounts? command).map wrappingSum

/-- The bounds of the number of parameters of a command. An open upper bound drops the lower one, so
that a command of open parameters may stand alone. -/
def paramBounds (model : Model) (mode : RequiredParams) (command : Node) : Nat × Option Nat :=
  match model.maxParams command with
  | some max => (model.minParams mode command, some max)
  | none => (0, none)

/-- The expression of a flag. -/
def flagExpr (triggers : List String) (takesValue : Bool) : Expr :=
  .choice (triggers.map fun trigger =>
    if takesValue then .seq [.literal trigger, .optional (.literal "="), .value]
    else .literal trigger)

/-- The expression of a command without subcommands, for bounds of the number of its parameters. -/
def commandExpr (bounds : Nat × Option Nat) (command : Node) : Expr :=
  if command.params.isEmpty then .literal command.name
  else
    .seq [.literal command.name,
      .repetition (.choice (command.params.map .rule)) bounds.1 bounds.2]

/-- The expression of a command with subcommands. -/
def groupExpr (group : Node) : Expr :=
  .seq [.literal group.name,
    .repetition (.choice ((group.subcommands ++ group.params).map .rule)) 1 none]

/-- The expression of a node, for bounds of the number of its parameters. -/
def nodeExpr (bounds : Nat × Option Nat) (node : Node) : Expr :=
  match node.kind with
  | .flag triggers takesValue => flagExpr triggers takesValue
  | .positional => .value
  | .command _ => commandExpr bounds node
  | .group .. => groupExpr node

/-- The expression of a node. -/
def exprOf (model : Model) (mode : RequiredParams) (node : Node) : Expr :=
  nodeExpr (model.paramBounds mode node) node

/-- A character of a rule name: an ASCII letter in lower case or a digit, or else an underscore. -/
def ruleNameChar (c : Char) : Char := if c.isAlphanum then c.toLower else '_'

/-- The name of a node's rule: its own name, made plain, and its number. -/
def ruleName (node : Node) : String :=
  String.ofList (node.name.toList.map ruleNameChar) ++ "_" ++ toString node.id

/-- The grammar of a model. -/
def grammar (model : Model) (mode : RequiredParams) : Grammar where
  productions := model.nodes.map fun node => ⟨node.id, ruleName node, model.exprOf mode node⟩
  start := model.root.id

end Model

end CommandGrammar
