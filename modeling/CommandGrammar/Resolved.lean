import CommandGrammar.Tree

/-!
# Resolved invocations

A parse tree is resolved into values: each invocation of a command becomes a map from
the names of its parameters and subcommands to what occurred under them. Texts are
decoded in the order of the line. A declaration that collects keeps all of its
occurrences, any other one the last.
-/

namespace CommandGrammar

mutual

/-- What occurred under one name. -/
inductive Field where
  /-- The value of a parameter. -/
  | value (value : Value)
  /-- The invocation of a subcommand. -/
  | command (invocation : Resolved)
  /-- All invocations of a subcommand that collects. -/
  | commands (invocations : List Resolved)

/-- An invocation of a command. -/
structure Resolved where
  /-- The command. -/
  node : NodeId
  /-- Its name. -/
  name : String
  /-- What occurred, by name and in the order of the names. -/
  fields : List (String × Field)

end

instance : Inhabited Field := ⟨.value default⟩

instance : Inhabited Resolved := ⟨⟨0, "", []⟩⟩

namespace Field

/-- The value of a parameter. -/
def value? : Field → Option Value
  | .value decoded => some decoded
  | _ => none

/-- The single invocation of a subcommand. -/
def command? : Field → Option Resolved
  | .command invocation => some invocation
  | _ => none

/-- The collected invocations of a subcommand. -/
def commands? : Field → Option (List Resolved)
  | .commands invocations => some invocations
  | _ => none

end Field

mutual

/-- A field as a value: invocations become maps. -/
def Field.toValue : Field → Value
  | .value value => value
  | .command invocation => invocation.toValue
  | .commands invocations => .list (valuesOfInvocations invocations)

/-- An invocation as a map from names to values. -/
def Resolved.toValue : Resolved → Value
  | { fields, .. } => .map (entriesOfFields fields)

/-- Invocations as values. -/
def valuesOfInvocations : List Resolved → List Value
  | [] => []
  | invocation :: rest => invocation.toValue :: valuesOfInvocations rest

/-- Fields as entries of a map. -/
def entriesOfFields : List (String × Field) → List (String × Value)
  | [] => []
  | (name, field) :: rest => (name, field.toValue) :: entriesOfFields rest

end

/-- The field of a name. -/
def Resolved.field? (resolved : Resolved) (name : String) : Option Field :=
  Keyed.find? name resolved.fields

/-- A text that its parameter cannot decode. -/
structure Undecodable where
  /-- The parameter. -/
  node : NodeId
  /-- Its name. -/
  parameter : String
  /-- The text. -/
  raw : String
  /-- Why it has no value. -/
  fault : DecodeFault
deriving DecidableEq, Repr

/-- The wording of an undecodable text. -/
def Undecodable.message (fault : Undecodable) : String :=
  "cannot decode " ++ Text.escaped fault.raw ++ " for '" ++ fault.parameter ++ "': " ++
    fault.fault.message

/-- Why a tree cannot be resolved. -/
inductive ResolveFault where
  /-- A text cannot be decoded. -/
  | undecodable (fault : Undecodable)
  /-- A branch names no node of the model; no parsed tree has one. -/
  | foreign (rule : NodeId)
deriving DecidableEq, Repr

/-- What to do about parameters that do not occur. -/
inductive Defaults where
  /-- Give them their declared defaults, unless they are required. -/
  | filled
  /-- Leave them out. -/
  | omitted
deriving DecidableEq, Repr, Inhabited

/-- The occurrences of branches, in order, with the rules of the branches. -/
abbrev Occurrences := List (NodeId × Field)

/-- The one field that stands for all occurrences of a declaration; none if there are none. -/
def Node.gather? (node : Node) (found : List Field) : Option Field :=
  if found.isEmpty then none
  else if !node.collects then found.getLast?
  else if node.isParam then some (.value (.list (found.filterMap Field.value?)))
  else some (.commands (found.filterMap Field.command?))

/-- The field of a declaration that does not occur. -/
def Node.absent? (node : Node) (defaults : Defaults) : Option Field :=
  if !node.required ∧ defaults = .filled then node.default.map .value else none

namespace Model

/-- The field of a declaration, given all occurrences under its command. -/
def fieldOf? (defaults : Defaults) (occurrences : Occurrences) (node : Node) : Option Field :=
  let found := (occurrences.filter (·.1 == node.id)).map Prod.snd
  (node.gather? found).or (node.absent? defaults)

/-- The invocation of a command with the given occurrences. -/
def invocation (model : Model) (defaults : Defaults) (command : Node)
    (occurrences : Occurrences) : Resolved where
  node := command.id
  name := command.name
  fields := (model.nodesOf command.declared).foldl (fun fields node =>
    match fieldOf? defaults occurrences node with
    | some field => Keyed.insert node.name field fields
    | none => fields) []

/-- The value of a parameter's occurrence, whose branch has the given children. -/
def paramField (node : Node) (children : List Tree) : Except ResolveFault Field :=
  let raw := (firstValue? children).getD ""
  match node.decode raw with
  | .ok value => .ok (.value value)
  | .error fault => .error (.undecodable ⟨node.id, node.name, raw, fault⟩)

mutual

/-- The occurrence that a branch stands for. -/
def occurrence (model : Model) (defaults : Defaults) : Tree → Except ResolveFault Occurrences
  | .leaf _ => .ok []
  | .branch rule children =>
    match model.node? rule with
    | none => .error (.foreign rule)
    | some node =>
      match node.kind with
      | .flag _ false => .ok [(rule, .value (.bool true))]
      | .flag _ true | .positional => do return [(rule, ← paramField node children)]
      | .command _ | .group .. => do
        let inner ← occurrences model defaults children
        return [(rule, .command (model.invocation defaults node inner))]

/-- The occurrences that branches stand for, up to the first fault. -/
def occurrences (model : Model) (defaults : Defaults) :
    List Tree → Except ResolveFault Occurrences
  | [] => .ok []
  | tree :: rest => do
    let first ← occurrence model defaults tree
    let others ← occurrences model defaults rest
    return first ++ others

end

/-- The invocation that a parse stands for. -/
def resolve (model : Model) (defaults : Defaults) (parse : Parse) :
    Except ResolveFault Resolved :=
  match model.node? parse.rule with
  | none => .error (.foreign parse.rule)
  | some command => do
    let inner ← model.occurrences defaults parse.children
    return model.invocation defaults command inner

end Model

end CommandGrammar
