import CommandGrammar.Schema
import CommandGrammar.Text.Blank
import CommandGrammar.Text.Escaped

/-!
# Checking schemas

A schema is checked from the outside in: a command's own name and arity, its
parameters in order, then its subcommands in order. The first fault ends the check.
-/

namespace CommandGrammar

/-- Why a schema declares no command tree. -/
inductive SchemaFault where
  /-- A command name is empty or blank. -/
  | emptyCommandName
  /-- A parameter name of the command is empty or blank. -/
  | emptyParamName (command : String)
  /-- A command name holds a blank and can match no word. -/
  | invalidCommandName (name : String)
  /-- A flag has no trigger. -/
  | missingTrigger (param : String)
  /-- A trigger does not have the form of one. -/
  | invalidTrigger (trigger : String)
  /-- Two flags of a command share a trigger, or one flag repeats it. -/
  | duplicateTrigger (command trigger : String)
  /-- Two fields of a command share a name. -/
  | duplicateParam (command name : String)
  /-- Two subcommands of a command share a name. -/
  | duplicateSubcommand (group name : String)
  /-- A trigger is spelled like a subcommand beside it. -/
  | triggerShadowsSubcommand (trigger : String)
  /-- A parameter or command is expected no times. -/
  | zeroArity (name : String)
  /-- A text of a declared default has no value. -/
  | invalidDefault (param : String) (fault : DecodeFault)
deriving DecidableEq, Repr

/-- The wording of a fault. -/
def SchemaFault.message : SchemaFault → String
  | .emptyCommandName => "command name cannot be empty"
  | .emptyParamName command => "parameter name cannot be empty in command '" ++ command ++ "'"
  | .invalidCommandName name => "invalid command name: " ++ Text.escaped name
  | .missingTrigger param => "flag '" ++ param ++ "' must define at least one trigger"
  | .invalidTrigger trigger => "invalid trigger format: " ++ Text.escaped trigger
  | .duplicateTrigger command trigger =>
    "duplicate trigger in command '" ++ command ++ "': " ++ trigger
  | .duplicateParam command name =>
    "duplicate parameter in command '" ++ command ++ "': " ++ name
  | .duplicateSubcommand group name =>
    "duplicate subcommand in group '" ++ group ++ "': " ++ name
  | .triggerShadowsSubcommand trigger =>
    "trigger '" ++ trigger ++ "' collides with a subcommand name"
  | .zeroArity name => "arity of '" ++ name ++ "' must be at least 1"
  | .invalidDefault param fault =>
    "invalid default for '" ++ param ++ "': " ++ fault.message

/-- A character that may stand anywhere in a trigger after its dashes. -/
def continuesTrigger (c : Char) : Bool := !Text.isBlank c && c != '='

/-- A character that may follow the dashes of a trigger. -/
def beginsTrigger (c : Char) : Bool := continuesTrigger c && c != '-'

/-- One or two dashes, a character that is no dash, and more; no blank and no equals sign. -/
def isTrigger : List Char → Bool
  | '-' :: '-' :: c :: rest => beginsTrigger c && rest.all continuesTrigger
  | '-' :: c :: rest => beginsTrigger c && rest.all continuesTrigger
  | _ => false

namespace Command

/-- Checks one trigger against those seen before it in the command, and adds it to them. -/
def checkTrigger (command : Command) (seen : List String) (trigger : String) :
    Except SchemaFault (List String) :=
  if !isTrigger trigger.toList then .error (.invalidTrigger trigger)
  else if seen.contains trigger then .error (.duplicateTrigger command.name trigger)
  else if (command.subcommand? trigger).isSome then .error (.triggerShadowsSubcommand trigger)
  else .ok (trigger :: seen)

/-- Checks the triggers of a parameter against those seen before. -/
def checkTriggers (command : Command) (seen : List String) (param : Param) :
    Except SchemaFault (List String) :=
  match param.form with
  | .positional => .ok seen
  | .flag [] _ => .error (.missingTrigger param.name)
  | .flag triggers _ => triggers.foldlM (checkTrigger command) seen

/-- Names and triggers that the parameters checked so far have taken. -/
structure Taken where
  /-- Their names. -/
  names : List String
  /-- Their triggers. -/
  triggers : List String

/-- Checks one parameter against those before it. -/
def checkParam (command : Command) (taken : Taken) (param : Param) :
    Except SchemaFault Taken := do
  if Text.allBlank param.name then throw (.emptyParamName command.name)
  if taken.names.contains param.name then throw (.duplicateParam command.name param.name)
  if param.arity = .exactly 0 then throw (.zeroArity param.name)
  let triggers ← checkTriggers command taken.triggers param
  if let some value := param.default then
    if let .error fault := param.decoder.decodeDefault value then
      throw (.invalidDefault param.name fault)
  return ⟨param.name :: taken.names, triggers⟩

/-- Checks what a command declares apart from its subcommands. -/
def checkOwn (command : Command) : Except SchemaFault Unit := do
  if Text.allBlank command.name then throw .emptyCommandName
  if Text.anyBlank command.name then throw (.invalidCommandName command.name)
  if command.arity = .exactly 0 then throw (.zeroArity command.name)
  discard (command.params.foldlM (checkParam command) ⟨[], []⟩)

mutual

/-- Checks a command tree. -/
def check : Command → Except SchemaFault Unit
  | ⟨name, description, params, subcommands, required, arity, multiple⟩ => do
    let command : Command :=
      ⟨name, description, params, subcommands, required, arity, multiple⟩
    command.checkOwn
    checkSubcommands command [] subcommands

/-- Checks subcommands, each against the parameters beside it and the names seen before it. -/
def checkSubcommands (command : Command) (seen : List String) :
    List Command → Except SchemaFault Unit
  | [] => .ok ()
  | subcommand :: rest => do
    if (command.param? subcommand.name).isSome then
      throw (.duplicateParam command.name subcommand.name)
    if seen.contains subcommand.name then
      throw (.duplicateSubcommand command.name subcommand.name)
    subcommand.check
    checkSubcommands command (subcommand.name :: seen) rest

end

/-- The faults that a check reports: none or one. -/
def faults (command : Command) : List SchemaFault :=
  match command.check with
  | .ok () => []
  | .error fault => [fault]

end Command

end CommandGrammar
