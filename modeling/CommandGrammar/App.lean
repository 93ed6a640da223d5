import CommandGrammar.Grammar.Compile
import CommandGrammar.Grammar.Listing
import CommandGrammar.Parser
import CommandGrammar.Resolved
import CommandGrammar.Tree.Occurrences

/-!
# Apps

An app is a command tree made ready for any number of command lines. A line is
parsed, its occurrences are checked unless that is switched off, and its texts are
decoded; the first stage that fails decides the error.
-/

namespace CommandGrammar

/-- Why a command line yields no invocation. -/
inductive Failure where
  /-- The schema declares no command tree. -/
  | schema (fault : SchemaFault)
  /-- The line has no parse. -/
  | parse (fault : ParseFault)
  /-- An occurrence rule is broken. -/
  | occurrences (violation : Violation)
  /-- A text cannot be decoded. -/
  | decode (fault : Undecodable)
  /-- A branch names no node of the model; no parsed tree has one. -/
  | foreign (rule : NodeId)
deriving DecidableEq, Repr

/-- The wording of a failure. -/
def Failure.message : Failure → String
  | .schema fault => "grammar compile error: " ++ fault.message
  | .parse fault => "parse error: " ++ fault.message
  | .occurrences violation => violation.message
  | .decode fault => fault.message
  | .foreign rule => "no node #" ++ toString rule

/-- The failure of a tree that cannot be resolved. -/
def Failure.ofResolve : ResolveFault → Failure
  | .undecodable fault => .decode fault
  | .foreign rule => .foreign rule

/-- How an app treats its lines. -/
structure Options where
  /-- Check the occurrence rules. -/
  validate : Bool := true
  /-- What to do about parameters that do not occur. -/
  defaults : Defaults := .filled
deriving DecidableEq, Repr, Inhabited

/-- A command tree made ready for command lines. -/
structure App where
  /-- The nodes of the tree. -/
  model : Model
  /-- Its grammar, in which required parameters count. -/
  grammar : Grammar
  /-- The table of that grammar. -/
  strict : Table
  /-- The table of the grammar in which required parameters are left to the check. -/
  deferred : Table
  /-- How lines are treated. -/
  options : Options

namespace App

/-- The app of a schema. -/
def ofSchema (schema : Command) (options : Options) : Except SchemaFault App := do
  let model ← Model.ofSchema schema
  let grammar := model.grammar .counted
  return ⟨model, grammar, .ofGrammar grammar, .ofGrammar (model.grammar .deferred), options⟩

/-- Parses a line and checks its occurrences, unless that is switched off. -/
def parseLine (app : App) (line : String) : Except Failure Parse := do
  if app.options.validate then
    let parse ← (app.deferred.parse line).mapError .parse
    match app.model.violation? parse with
    | some violation => throw (.occurrences violation)
    | none => return parse
  else (app.strict.parse line).mapError .parse

/-- The invocation that a line asks for. -/
def resolveLine (app : App) (line : String) : Except Failure Resolved := do
  let parse ← app.parseLine line
  (app.model.resolve app.options.defaults parse).mapError .ofResolve

/-- The invocation that arguments ask for. -/
def resolveArguments (app : App) (arguments : List String) : Except Failure Resolved :=
  app.resolveLine (Line.joinArguments arguments)

/-- Calls an action with the fields of the invocation that a line asks for. -/
def invokeLine {α : Type} (app : App) (action : Keyed String Field → α) (line : String) :
    Except Failure α :=
  (app.resolveLine line).map fun resolved => action resolved.fields

/-- Calls an action with the fields of the invocation that arguments ask for. -/
def invokeArguments {α : Type} (app : App) (action : Keyed String Field → α)
    (arguments : List String) : Except Failure α :=
  app.invokeLine action (Line.joinArguments arguments)

/-- A one-line description of an app. -/
def summary (app : App) : String :=
  "App \x7b command: " ++ Text.escaped app.model.root.name ++ ", rules: " ++
    toString app.grammar.size ++ ", options: InvokeOptions \x7b validate: " ++
    (if app.options.validate then "true" else "false") ++ ", defaults: " ++
    (match app.options.defaults with
      | .filled => "Fill"
      | .omitted => "Omit") ++
    " \x7d, .. \x7d"

end App

end CommandGrammar
