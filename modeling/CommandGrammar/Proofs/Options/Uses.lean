import Mathlib
import CommandGrammar.App
import CommandGrammar.Proofs.Model.Nodes
import CommandGrammar.Proofs.Options.Chunks

/-!
# Commands of options

The parameters of a command may all be flags that take values, and the command may have no
subcommands. A line of it is its name and, for each use of an option, the trigger and the
quoted text, with a space or with an equals sign between them. The nodes of such a command
are the root and, in the order of the parameters, one node for each of them.
-/

namespace CommandGrammar

/-- A command without subcommands whose parameters are options. -/
structure Command.OfOptions (schema : Command) : Prop where
  /-- It has no subcommands. -/
  alone : schema.subcommands = []
  /-- Every parameter is a flag that takes a value. -/
  flags : ∀ param ∈ schema.params, ∃ triggers, param.form = .flag triggers true

/-- The triggers of the parameter at a place. -/
def Command.triggersAt (schema : Command) (place : Fin schema.params.length) : List String :=
  schema.params[place].triggers

/-- The number of the node of the parameter at a place. -/
def Command.optionId (schema : Command) (place : Fin schema.params.length) : NodeId := place.val + 1

/-- The node of the parameter at a place. -/
def Command.optionNode (schema : Command) (place : Fin schema.params.length) : Node :=
  .ofParam (schema.optionId place) 0 schema.params[place]

/-- The names of the nodes of the parameters. -/
theorem Command.names_options (schema : Command) :
    ((List.finRange schema.params.length).map schema.optionNode).map Node.name =
      schema.params.map Param.name := by
  rw [List.map_map]
  refine List.ext_getElem (by simp) fun place _ _ => ?_
  simp [optionNode, Node.ofParam]

/-- A use of an option on a line of a command. -/
structure OptionUse (schema : Command) where
  /-- The place of the parameter. -/
  place : Fin schema.params.length
  /-- The trigger. -/
  trigger : String
  /-- The text. -/
  raw : String
  /-- The value that the text stands for. -/
  value : Value
  /-- The trigger and the text are joined by an equals sign. -/
  joined : Bool
  /-- The trigger is one of the parameter. -/
  known : trigger ∈ schema.params[place].triggers
  /-- The parameter decodes the text. -/
  decodes : (schema.optionNode place).decode raw = .ok value

namespace OptionUse

variable {schema : Command}

/-- The option with its value. -/
def chunk (use : OptionUse schema) : Chunk := ⟨use.trigger, use.joined, use.raw⟩

/-- How the use is written: as one word, or as two. -/
def words (use : OptionUse schema) : List String :=
  if use.joined then [use.trigger ++ "=" ++ Line.quote use.raw]
  else [use.trigger, Line.quote use.raw]

/-- The line of the command with uses of its options. -/
def line (schema : Command) (uses : List (OptionUse schema)) : String :=
  Text.join " " (schema.name :: uses.flatMap words)

/-- How often a parameter is used. -/
def count (uses : List (OptionUse schema)) (place : Fin schema.params.length) : Nat :=
  uses.countP (·.place = place)

/-- The values of a parameter, in the order of the line. -/
def values (uses : List (OptionUse schema)) (place : Fin schema.params.length) : List Value :=
  (uses.filter (·.place = place)).map OptionUse.value

/-- The texts that are words of their own. -/
def spaced (uses : List (OptionUse schema)) : List String :=
  (uses.filter (!·.joined)).map OptionUse.raw

end OptionUse

namespace Model

variable {schema : Command} {model : Model}

/-- The root of a command without subcommands declares one node for each parameter. -/
theorem root_options (made : ofSchema schema = .ok model) (alone : schema.subcommands = []) :
    model.root = .ofCommand 0 none schema ∧
      model.root.kind = .command (List.range' 1 schema.params.length) := by
  obtain ⟨_, rfl⟩ := ofSchema_eq_ok made
  refine ⟨rfl, ?_⟩
  simp [Node.ofCommand, alone, Node.rootIds]

/-- The root has number zero. -/
theorem node?_zero (model : Model) : model.node? 0 = some model.root := rfl

/-- Without subcommands the nodes below the root are those of the parameters. -/
theorem below_params (alone : schema.subcommands = []) : Node.below 0 schema =
    schema.params.mapIdx fun place param => .ofParam (0 + 1 + place) 0 param := by
  cases schema with
  | mk name description params subcommands required arity multiple =>
    obtain rfl : subcommands = [] := alone
    rw [Node.below, Node.belowAll, List.append_nil]

/-- The nodes after the root are those of the parameters. -/
theorem node?_option (made : ofSchema schema = .ok model) (alone : schema.subcommands = [])
    (place : Fin schema.params.length) :
    model.node? (schema.optionId place) = some (schema.optionNode place) := by
  obtain ⟨_, rfl⟩ := ofSchema_eq_ok made
  have number : 0 + 1 + place.val = schema.optionId place := by
    unfold Command.optionId
    omega
  rw [node?, nodes, Command.optionId, List.getElem?_cons_succ, below_params alone,
    List.getElem?_mapIdx, List.getElem?_eq_getElem place.2, Option.map_some, number]
  rfl

/-- What the root declares. -/
theorem declared_root (made : ofSchema schema = .ok model) (alone : schema.subcommands = []) :
    model.root.declared = (List.finRange schema.params.length).map schema.optionId := by
  have kind := (root_options made alone).2
  have numbers : model.root.declared = List.range' 1 schema.params.length := by
    simp [Node.declared, Node.params, Node.subcommands, kind]
  rw [numbers]
  refine List.ext_getElem (by simp) fun place _ _ => ?_
  simp [Command.optionId, Nat.add_comm]

/-- The parameters of the root, as nodes. -/
theorem nodesOf_root (made : ofSchema schema = .ok model) (alone : schema.subcommands = []) :
    model.nodesOf model.root.declared =
      (List.finRange schema.params.length).map schema.optionNode := by
  have each : model.node? ∘ schema.optionId = some ∘ schema.optionNode :=
    funext fun place => node?_option made alone place
  rw [nodesOf, declared_root made alone, List.filterMap_map, each, List.filterMap_eq_map]

end Model

end CommandGrammar
