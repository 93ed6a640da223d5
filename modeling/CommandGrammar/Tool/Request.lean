import CommandGrammar.Number.Integer
import CommandGrammar.Tool.Usage

/-!
# Requests to the tool

The arguments of the tool are read from left to right. The first one that does not fit
decides: a request for help before it is answered, anything else is misuse. What must
be given is checked at the end.
-/

namespace CommandGrammar.Tool

/-- How results are printed. -/
inductive Format where
  /-- As JSON. -/
  | json
  /-- As YAML. -/
  | yaml
deriving DecidableEq, Repr

/-- The format of a name. -/
def Format.named? : String → Option Format
  | "json" => some .json
  | "yaml" => some .yaml
  | _ => none

/-- A count of 64 bits; a plus sign may stand before it. -/
def isCount (text : String) : Bool :=
  let digits := match text.toList with
    | '+' :: digits => digits
    | digits => digits
  !digits.isEmpty && (Number.natural? digits).any (· < UInt64.size)

/-- The text may follow the name of a setting of this kind. -/
def ArgumentKind.accepts (kind : ArgumentKind) (text : String) : Bool :=
  match kind with
  | .path => text ≠ ""
  | .text => true
  | .format => (Format.named? text).isSome
  | .count => isCount text

/-- What an action has been given so far. -/
structure Given where
  /-- The path of the model. -/
  model : Option String := none
  /-- The names of switches. -/
  switches : List String := []
  /-- What followed the names of other settings. -/
  values : List (String × String) := []
  /-- The command line. -/
  line : List String := []
deriving DecidableEq, Repr

/-- Why there is no request. -/
inductive Refusal where
  /-- Help was asked for. -/
  | help (topic : Topic)
  /-- An argument does not fit, or something is missing. -/
  | misuse
deriving DecidableEq, Repr

namespace Given

/-- Takes the path of the model, of which there is one. -/
def takeModel (given : Given) (path : String) : Except Refusal Given :=
  if given.model.isSome ∨ path = "" then .error .misuse
  else .ok { given with model := some path }

/-- Takes a switch, which is given at most once. -/
def takeSwitch (given : Given) (name : String) : Except Refusal Given :=
  if given.switches.contains name then .error .misuse
  else .ok { given with switches := name :: given.switches }

/-- Takes what followed the name of a setting, which is given at most once. -/
def takeValue (given : Given) (name : String) (kind : ArgumentKind) (value : String) :
    Except Refusal Given :=
  if (given.values.lookup name).isSome ∨ !kind.accepts value then .error .misuse
  else .ok { given with values := (name, value) :: given.values }

/-- The switch is given. -/
def has (given : Given) (name : String) : Bool := given.switches.contains name

/-- What followed the name of a setting. -/
def value? (given : Given) (name : String) : Option String := given.values.lookup name

end Given

/-- How an argument looks. -/
inductive ArgumentForm where
  /-- Two dashes. -/
  | divider
  /-- Two dashes and a name, perhaps with an equals sign and a value. -/
  | long (name : String) (attached : Option String)
  /-- A dash and letters. -/
  | short (letters : List Char)
  /-- Anything else, a lone dash included. -/
  | plain
deriving DecidableEq, Repr

/-- The form of an argument. -/
def ArgumentForm.of (argument : String) : ArgumentForm :=
  match argument.toList with
  | ['-', '-'] => .divider
  | '-' :: '-' :: cs =>
    let name := String.ofList (cs.takeWhile (· ≠ '='))
    match cs.dropWhile (· ≠ '=') with
    | [] => .long name none
    | _ :: value => .long name (some (String.ofList value))
  | '-' :: c :: cs => .short (c :: cs)
  | _ => .plain

/-- Reads the arguments of an action. -/
def readArguments (action : Action) (given : Given) : List String → Except Refusal Given
  | [] => .ok given
  | argument :: rest =>
    match ArgumentForm.of argument with
    | .divider =>
      if action.lineUse = .absent then rest.foldlM Given.takeModel given
      else .ok { given with line := rest }
    | .plain => do readArguments action (← given.takeModel argument) rest
    | .short letters => .error (if letters.head? = some 'h' then .help (.action action) else .misuse)
    | .long name attached =>
      match action.setting? name with
      | none => .error (if name = "help" ∧ attached = none then .help (.action action) else .misuse)
      | some setting =>
        match setting.argument, attached, rest with
        | none, none, rest => do readArguments action (← given.takeSwitch name) rest
        | none, some _, _ => .error .misuse
        | some kind, some value, rest => do
          readArguments action (← given.takeValue name kind value) rest
        | some kind, none, value :: rest =>
          if ArgumentForm.of value = .plain then do
            readArguments action (← given.takeValue name kind value) rest
          else .error .misuse
        | some _, none, [] => .error .misuse

/-- What the tool is asked for. -/
inductive Request where
  /-- Check a model. -/
  | check (model : String)
  /-- Print a grammar or only its fingerprint. -/
  | grammar (model : String) (fingerprintOnly : Bool)
  /-- Print the parse tree of a command line. -/
  | tree (model : String) (format : Format) (line : List String)
  /-- Print the fields that a command line resolves to. -/
  | parse (model : String) (validate : Bool) (format : Format) (line : List String)
  /-- Parse the lines of a file. -/
  | batch (model input : String) (validate : Bool)
  /-- Resolve settings; the variables begin with a stem or the name of the root command. -/
  | resolve (model : String) (stem variableFile config : Option String) (withOrigins : Bool)
      (format : Format) (line : List String)
deriving DecidableEq, Repr

/-- The request of an action with what it has been given, if nothing is missing. -/
def Request.ofGiven? (action : Action) (given : Given) : Option Request := do
  let model ← given.model
  let format := ((given.value? "format").bind Format.named?).getD .json
  let validate := !given.has "no-validate"
  match action with
  | .check => return .check model
  | .grammar => return .grammar model (given.has "fingerprint")
  | .parse =>
    if given.line.isEmpty then none
    else if given.has "tree" then return .tree model format given.line
    else return .parse model validate format given.line
  | .batch => return .batch model (← given.value? "input") validate
  | .resolve =>
    return .resolve model (given.value? "env-prefix") (given.value? "env-file")
      (given.value? "config") (given.has "origins") format given.line

/-- Reads the arguments of the tool. -/
def Request.read : List String → Except Refusal Request
  | [] => .error .misuse
  | "help" :: rest =>
    match rest with
    | [] => .error (.help .tool)
    | [name] => .error (((Topic.named? name).map .help).getD .misuse)
    | _ => .error .misuse
  | argument :: rest =>
    match ArgumentForm.of argument with
    | .long "help" none => .error (.help .tool)
    | .short ('h' :: _) => .error (.help .tool)
    | .plain => do
      match Action.named? argument with
      | none => throw .misuse
      | some action =>
        match Request.ofGiven? action (← readArguments action {} rest) with
        | none => throw .misuse
        | some request => return request
    | _ => .error .misuse

/-- The paths of the files that a request reads. -/
def Request.paths : Request → List String
  | .check model | .grammar model _ | .tree model _ _ | .parse model _ _ _ => [model]
  | .batch model input _ => [model, input]
  | .resolve model _ variableFile config _ _ _ => model :: variableFile.toList ++ config.toList

end CommandGrammar.Tool
