import CommandGrammar.Value.Decoder

/-!
# Schemas

A schema declares a command tree: each command has parameters, which are flags or
positional arguments, and subcommands of the same form. It is what a caller
writes; the model built from it is what parsing works with.
-/

namespace CommandGrammar

/-- How often a parameter or subcommand is expected in one invocation. -/
inductive Arity where
  /-- A fixed number of times. -/
  | exactly (count : UInt32)
  /-- Any number of times. -/
  | unbounded
deriving DecidableEq, Repr

instance : Inhabited Arity := ⟨.exactly 1⟩

/-- How the occurrences of a parameter are recognised. -/
inductive ParamForm where
  /-- By one of its triggers, followed by a value if it takes one. -/
  | flag (triggers : List String) (takesValue : Bool)
  /-- By its place among the other words. -/
  | positional
deriving DecidableEq, Repr, Inhabited

/-- A declared parameter. -/
structure Param where
  /-- Name of the field that holds its value. -/
  name : String
  /-- How its occurrences are recognised. -/
  form : ParamForm
  /-- How often it is expected. -/
  arity : Arity := .exactly 1
  /-- It must occur. -/
  required : Bool := false
  /-- It may occur any number of times, whatever its arity. -/
  multiple : Bool := false
  /-- Value of a parameter that does not occur; texts in it are decoded. -/
  default : Option Value := none
  /-- Kind of its values. -/
  kind : ValueKind := .string
  /-- The allowed texts; none means any. -/
  choices : List String := []
  /-- A reader that stands in for the kind. -/
  reader : Option Reader := none
  /-- A description for readers of the schema. -/
  description : Option String := none
deriving Inhabited

/-- A declared command with its parameters and subcommands. -/
structure Command where
  /-- The word that begins its invocation. -/
  name : String
  /-- A description for readers of the schema. -/
  description : Option String := none
  /-- Its parameters. -/
  params : List Param := []
  /-- Its subcommands. -/
  subcommands : List Command := []
  /-- It must be invoked under its parent. -/
  required : Bool := false
  /-- How often it is expected under its parent. -/
  arity : Arity := .exactly 1
  /-- It may be invoked any number of times under its parent, every invocation being kept. -/
  multiple : Bool := false
deriving Inhabited

namespace Param

/-- The triggers of a flag. -/
def triggers (param : Param) : List String :=
  match param.form with
  | .flag triggers _ => triggers
  | .positional => []

/-- The decoder of its texts. -/
def decoder (param : Param) : Decoder := ⟨param.kind, param.choices, param.reader⟩

/-- The longest of the texts, of several the last. -/
def longest : List String → String
  | [] => ""
  | text :: rest => rest.foldl
      (fun best next => if best.utf8ByteSize ≤ next.utf8ByteSize then next else best) text

/-- The name that goes with triggers: the longest one without its leading dashes, every other
dash written as an underscore. -/
def nameOfTriggers (triggers : List String) : String :=
  String.ofList (((longest triggers).toList.dropWhile (· == '-')).map
    fun c => if c == '-' then '_' else c)

/-- A flag without value, false unless it occurs. -/
def switch (triggers : List String) : Param :=
  { name := nameOfTriggers triggers, form := .flag triggers false, kind := .bool,
    default := some (.bool false) }

/-- A flag with a value. -/
def option (triggers : List String) : Param :=
  { name := nameOfTriggers triggers, form := .flag triggers true }

/-- A positional argument. -/
def argument (name : String) : Param := { name, form := .positional }

end Param

namespace Command

/-- A command with subcommands is a group. -/
def isGroup (command : Command) : Bool := !command.subcommands.isEmpty

/-- The parameter of a name. -/
def param? (command : Command) (name : String) : Option Param :=
  command.params.find? (·.name == name)

/-- The subcommand of a name. -/
def subcommand? (command : Command) (name : String) : Option Command :=
  command.subcommands.find? (·.name == name)

mutual

/-- Number of commands and parameters of the tree. -/
def size : Command → Nat
  | { params, subcommands, .. } => 1 + params.length + sizeAll subcommands

/-- Number of commands and parameters of several trees. -/
def sizeAll : List Command → Nat
  | [] => 0
  | command :: rest => command.size + sizeAll rest

end

end Command

end CommandGrammar
