import Mathlib
import CommandGrammar.Proofs.Model.Compiled
import CommandGrammar.Proofs.Model.Origins
import CommandGrammar.Proofs.Model.Productions
import CommandGrammar.Proofs.Model.Unfolding

/-!
# The lines of a schema

What a command tree lets one write can be said without nodes and rules: an occurrence of a
parameter is one of a few short sequences of tokens, and an invocation of a command is its name and
items, each of which is a parameter or a subcommand of it. Both grammars of a model derive exactly
these sequences; they differ in the number of items that a command asks for.
-/

namespace CommandGrammar

/-- The token sequences that are an occurrence of a parameter. -/
def Param.Spells (param : Param) (tokens : List String) : Prop :=
  match param.form with
  | .flag triggers false => ∃ trigger ∈ triggers, tokens = [trigger]
  | .flag triggers true =>
    ∃ trigger ∈ triggers, ∃ value, tokens = [trigger, value] ∨ tokens = [trigger, "=", value]
  | .positional => ∃ value, tokens = [value]

/-- The count that the occurrences of a parameter must have, if it is fixed. -/
def Param.fixedCount? (param : Param) : Option Nat :=
  match param.arity with
  | .exactly count => if param.multiple then none else some count.toNat
  | .unbounded => none

/-- The parameter counts towards the least number of items of its command. -/
def RequiredParams.asks (mode : RequiredParams) (param : Param) : Bool :=
  if param.required then mode == .counted else param.default.isNone

namespace Command

/-- The number of items that the parameters of a command ask for. -/
def asked (mode : RequiredParams) (command : Command) : Nat :=
  Model.wrappingSum ((command.params.filter mode.asks).map fun param => param.fixedCount?.getD 1)

/-- The number of items that the parameters of a command offer, if their counts are all fixed. -/
def offered (command : Command) : Nat :=
  Model.wrappingSum (command.params.map fun param => param.fixedCount?.getD 0)

/-- A number of items that a command may have: any one but zero if it has subcommands, and otherwise
any one between what its parameters ask for and what they offer, if their counts are all fixed. As
many as are asked for are allowed even if they are more than are offered. -/
def AllowsItems (mode : RequiredParams) (command : Command) (count : Nat) : Prop :=
  if command.subcommands.isEmpty then
    (∀ param ∈ command.params, param.fixedCount?.isSome = true) →
      command.asked mode ≤ count ∧ count ≤ max (command.asked mode) command.offered
  else 0 < count

mutual

/-- The token sequences that are an invocation of a command. -/
def Spells (mode : RequiredParams) : Command → List String → Prop
  | ⟨name, description, params, subcommands, required, arity, multiple⟩, tokens =>
    ∃ parts : List (List String), tokens = name :: parts.flatten ∧
      AllowsItems mode ⟨name, description, params, subcommands, required, arity, multiple⟩
        parts.length ∧
      ∀ part ∈ parts, (∃ param ∈ params, param.Spells part) ∨ SomeSpells mode subcommands part

/-- The token sequences that are an invocation of one of several commands. -/
def SomeSpells (mode : RequiredParams) : List Command → List String → Prop
  | [], _ => False
  | command :: rest, tokens => command.Spells mode tokens ∨ SomeSpells mode rest tokens

end

variable {mode : RequiredParams} {command : Command} {tokens : List String}

/-- An invocation of one of several commands is one of some command among them. -/
theorem someSpells_iff {commands : List Command} :
    SomeSpells mode commands tokens ↔ ∃ command ∈ commands, command.Spells mode tokens := by
  induction commands with
  | nil => simp [SomeSpells]
  | cons command rest ih => simp [SomeSpells, ih]

/-- An invocation of a command is its name and items, as many as it may have. -/
theorem spells_iff : command.Spells mode tokens ↔
    ∃ parts : List (List String), tokens = command.name :: parts.flatten ∧
      command.AllowsItems mode parts.length ∧
      ∀ part ∈ parts, (∃ param ∈ command.params, param.Spells part) ∨
        ∃ inner ∈ command.subcommands, inner.Spells mode part := by
  cases command with
  | mk name description params subcommands required arity multiple =>
    simp only [Spells, someSpells_iff]

end Command

/-- What a repetition after a literal derives. -/
theorem Grammar.derives_items_iff {grammar : Grammar} {name : String} {item : Expr} {min : Nat}
    {max : Option Nat} {tokens : List String} :
    grammar.Derives (.seq [.literal name, .repetition item min max]) tokens ↔
      ∃ parts : List (List String), tokens = name :: parts.flatten ∧
        (min ≤ parts.length ∧ ∀ bound ∈ max, parts.length ≤ bound) ∧
        ∀ part ∈ parts, grammar.Derives item part := by
  constructor
  · intro derived
    obtain ⟨_, _, rfl, head, tail⟩ := derives_seq_cons_iff.1 derived
    obtain ⟨_, _, rfl, items, last⟩ := derives_seq_cons_iff.1 tail
    obtain rfl := derives_literal_iff.1 head
    obtain rfl := derives_seq_nil_iff.1 last
    obtain ⟨parts, rfl, least, most, each⟩ := derives_repetition_iff.1 items
    exact ⟨parts, by simp, ⟨least, most⟩, each⟩
  · rintro ⟨parts, rfl, ⟨least, most⟩, each⟩
    have derived := Derives.seqCons (.literal name)
      (.seqCons (.repetition parts least most each) .seqNil)
    simpa using derived

namespace Model

variable {schema command : Command} {model : Model} {mode : RequiredParams} {grammar : Grammar}
  {id : NodeId} {parent : Option NodeId} {tokens : List String}

/-! ## Parameters -/

/-- The expression of a parameter derives its occurrences. -/
theorem derives_readExpr_param {above : NodeId} {param : Param} :
    grammar.Derives (model.readExpr mode (.ofParam id above param)) tokens ↔
      param.Spells tokens := by
  unfold readExpr nodeExpr Node.ofParam Param.Spells
  cases param.form with
  | positional => exact Grammar.derives_value_iff
  | flag triggers takesValue =>
    simp only [flagExpr, Grammar.derives_choice_iff, List.mem_map, exists_exists_and_eq_and]
    cases takesValue with
    | false => simp only [Bool.false_eq_true, if_false, Grammar.derives_literal_iff]
    | true =>
      refine exists_congr fun trigger => and_congr_right fun _ => ?_
      simp only [if_true, Grammar.derives_seq_cons_iff, Grammar.derives_seq_nil_iff,
        Grammar.derives_optional_iff, Grammar.derives_literal_iff, Grammar.derives_value_iff]
      constructor
      · rintro ⟨_, _, rfl, rfl, between, _, rfl, rfl | rfl, _, _, rfl, ⟨value, rfl⟩, rfl⟩
        · exact ⟨value, .inl rfl⟩
        · exact ⟨value, .inr rfl⟩
      · rintro ⟨value, rfl | rfl⟩
        · exact ⟨[trigger], [value], rfl, rfl, [], [value], rfl, .inl rfl, [value], [], rfl,
            ⟨value, rfl⟩, rfl⟩
        · exact ⟨[trigger], ["=", value], rfl, rfl, ["="], [value], rfl, .inr rfl, [value], [], rfl,
            ⟨value, rfl⟩, rfl⟩

/-! ## Numbers of items -/

section counts

variable (follows : Node.below id command <+: model.nodes.drop (id + 1))
include follows

/-- The parameters of a command without subcommands are those of its node. -/
theorem nodesOf_params_ofCommand :
    model.nodesOf (Node.ofCommand id parent command).params =
      command.params.mapIdx fun place param => .ofParam (id + 1 + place) id param := by
  rw [(declares_ofCommand id parent command).1, nodesOf_params follows]

/-- The greatest number of parameters is what they offer, if their counts are all fixed. -/
theorem maxParams_ofCommand {most : Nat} :
    model.maxParams (.ofCommand id parent command) = some most ↔
      (∀ param ∈ command.params, param.fixedCount?.isSome = true) ∧ command.offered = most := by
  have counts : (model.nodesOf (Node.ofCommand id parent command).params).map Node.fixedCount? =
      command.params.map Param.fixedCount? := by
    rw [nodesOf_params_ofCommand follows]
    refine List.ext_getElem (by simp) fun place _ _ => ?_
    rw [List.getElem_map, List.getElem_mapIdx, List.getElem_map]
    rfl
  simp only [maxParams, fixedCounts?, Option.map_eq_some_iff, mapM_eq_some_iff, counts]
  constructor
  · rintro ⟨numbers, same, rfl⟩
    exact ⟨fun _ => isSome_of_map_eq same, congrArg wrappingSum (map_getD_of_map_eq same 0)⟩
  · rintro ⟨fixed, same⟩
    refine ⟨_, ?_, same⟩
    rw [List.map_map]
    refine List.map_congr_left fun param member => ?_
    obtain ⟨number, known⟩ := Option.isSome_iff_exists.1 (fixed param member)
    simp [known]

/-- The least number of parameters is what they ask for. -/
theorem minParams_ofCommand :
    model.minParams mode (.ofCommand id parent command) = command.asked mode := by
  have same (number above : NodeId) (param : Param) :
      mode.counts (.ofParam number above param) = mode.asks param := by
    unfold RequiredParams.counts RequiredParams.asks Node.ofParam
    rw [Option.isNone_map]
  rw [minParams, nodesOf_params_ofCommand follows, Command.asked]
  clear follows
  congr 1
  generalize id + 1 = next
  induction command.params generalizing next with
  | nil => rfl
  | cons param rest ih =>
    have shifted : rest.mapIdx (fun place param => Node.ofParam (next + (place + 1)) id param) =
        rest.mapIdx fun place param => Node.ofParam (next + 1 + place) id param := by
      refine List.mapIdx_eq_mapIdx_iff.2 fun place _ => ?_
      rw [Nat.add_assoc, Nat.add_comm 1]
    rw [List.mapIdx_cons, shifted, List.filter_cons, same, List.filter_cons]
    split
    · rw [List.map_cons, ih, List.map_cons]
      rfl
    · exact ih (next + 1)

/-- The bounds of a command without subcommands are what its parameters ask for and offer. -/
theorem within_ofCommand {count : Nat} :
    Within (model.readBounds mode (.ofCommand id parent command)) count ↔
      ((∀ param ∈ command.params, param.fixedCount?.isSome = true) →
        command.asked mode ≤ count ∧ count ≤ max (command.asked mode) command.offered) := by
  simp only [within_readBounds_iff, minParams_ofCommand follows, maxParams_ofCommand follows]
  exact ⟨fun bounds fixed => bounds _ ⟨fixed, rfl⟩,
    fun bounds _ ⟨fixed, same⟩ => same ▸ bounds fixed⟩

end counts

/-! ## Commands -/

/-- A command without subcommands is its name and its parameters, as many as its bounds allow. -/
theorem derives_commandExpr_iff {command : Node} :
    grammar.Derives (commandExpr (model.readBounds mode command) command) tokens ↔
      ∃ parts : List (List String), tokens = command.name :: parts.flatten ∧
        Within (model.readBounds mode command) parts.length ∧
        ∀ part ∈ parts, ∃ id ∈ command.params, grammar.Derives (.rule id) part := by
  refine ⟨fun derived => ?_, fun ⟨parts, same, within, each⟩ => same ▸
    derives_commandExpr each within⟩
  unfold commandExpr at derived
  split at derived
  · next none_declared =>
    refine ⟨[], Grammar.derives_literal_iff.1 derived, ?_, by simp⟩
    rw [readBounds_of_isEmpty none_declared]
    exact ⟨Nat.le_refl 0, fun _ _ => Nat.zero_le _⟩
  · obtain ⟨parts, same, within, each⟩ := Grammar.derives_items_iff.1 derived
    refine ⟨parts, same, within, fun part member => ?_⟩
    simpa [Grammar.derives_choice_iff] using each part member

/-- A command with subcommands is its name and some of what it declares. -/
theorem derives_groupExpr_iff {group : Node} :
    grammar.Derives (groupExpr group) tokens ↔
      ∃ parts : List (List String), tokens = group.name :: parts.flatten ∧ 0 < parts.length ∧
        ∀ part ∈ parts, ∃ id ∈ group.declared, grammar.Derives (.rule id) part := by
  rw [groupExpr, Grammar.derives_items_iff]
  simp only [Grammar.derives_choice_iff, List.mem_map, exists_exists_and_eq_and, Node.declared,
    List.mem_append, Option.mem_def, reduceCtorEq, false_implies, implies_true, and_true,
    Nat.one_le_iff_ne_zero, Nat.pos_iff_ne_zero, or_comm]

/-- A command is its name and some of what it declares, as many as the command allows. -/
theorem derives_readExpr_command (follows : Node.below id command <+: model.nodes.drop (id + 1)) :
    grammar.Derives (model.readExpr mode (.ofCommand id parent command)) tokens ↔
      ∃ parts : List (List String), tokens = command.name :: parts.flatten ∧
        command.AllowsItems mode parts.length ∧ ∀ part ∈ parts,
          ∃ number ∈ (Node.ofCommand id parent command).declared,
            grammar.Derives (.rule number) part := by
  obtain ⟨params, subcommands⟩ := declares_ofCommand id parent command
  unfold Command.AllowsItems
  by_cases alone : command.subcommands = []
  · have expr : model.readExpr mode (.ofCommand id parent command) =
        commandExpr (model.readBounds mode (.ofCommand id parent command))
          (.ofCommand id parent command) := by
      simp [readExpr, nodeExpr, Node.ofCommand, alone, Node.rootIds]
    have declared : (Node.ofCommand id parent command).declared =
        (Node.ofCommand id parent command).params := by
      rw [Node.declared, subcommands, alone, Node.rootIds, List.append_nil]
    rw [expr, declared, derives_commandExpr_iff]
    simp only [within_ofCommand follows, alone, List.isEmpty_nil, if_true]
    rfl
  · have expr : model.readExpr mode (.ofCommand id parent command) =
        groupExpr (.ofCommand id parent command) := by
      obtain ⟨first, rest, same⟩ := List.exists_cons_of_ne_nil alone
      simp [readExpr, nodeExpr, Node.ofCommand, same, Node.rootIds]
    rw [expr, derives_groupExpr_iff]
    simp only [List.isEmpty_iff, if_neg alone]
    rfl

/-- Commands whose nodes follow each other stand under their numbers, with the nodes below them. -/
theorem stand_of_belowAll {next above : NodeId} {commands : List Command}
    (begins : Node.belowAll next above commands <+: model.nodes.drop next) :
    List.Forall₂ (fun id command => model.node? id = some (.ofCommand id (some above) command) ∧
      Node.below id command <+: model.nodes.drop (id + 1)) (Node.rootIds next commands) commands := by
  induction commands generalizing next with
  | nil => exact .nil
  | cons command rest ih =>
    obtain ⟨found, inside, after⟩ := begins_cons begins
    exact .cons ⟨found, inside⟩ (ih after)

/-- A node derives what its expression does. -/
theorem derives_rule_node (made : ofSchema schema = .ok model) {node : Node}
    (found : model.node? id = some node) :
    (model.readGrammar mode).Derives (.rule id) tokens ↔
      (model.readGrammar mode).Derives (model.readExpr mode node) tokens := by
  simp [Grammar.derives_rule_iff, production?_readGrammar made mode found]

/-- What a command declares derives the occurrences of its parameters and the invocations of its
subcommands, if those derive theirs. -/
theorem derives_declared_iff (made : ofSchema schema = .ok model)
    (follows : Node.below id command <+: model.nodes.drop (id + 1))
    (inner : ∀ other ∈ command.subcommands, ∀ number above part,
      model.node? number = some (.ofCommand number above other) →
      Node.below number other <+: model.nodes.drop (number + 1) →
      ((model.readGrammar mode).Derives (.rule number) part ↔ other.Spells mode part)) :
    (∃ number ∈ (Node.ofCommand id parent command).declared,
        (model.readGrammar mode).Derives (.rule number) tokens) ↔
      (∃ param ∈ command.params, param.Spells tokens) ∨
        ∃ other ∈ command.subcommands, other.Spells mode tokens := by
  have commands := stand_of_belowAll (begins_subcommands follows)
  simp only [Node.declared_ofCommand, List.mem_append, or_and_right, exists_or]
  refine or_congr ⟨?_, ?_⟩ ⟨?_, ?_⟩
  · rintro ⟨number, own, derived⟩
    obtain ⟨place, inside, rfl⟩ := List.mem_range'.1 own
    rw [Nat.one_mul, derives_rule_node made (node?_param follows inside), derives_readExpr_param]
      at derived
    exact ⟨_, List.getElem_mem inside, derived⟩
  · rintro ⟨param, member, spelled⟩
    obtain ⟨place, inside, rfl⟩ := List.getElem_of_mem member
    refine ⟨id + 1 + place, List.mem_range'_1.2 (by omega), ?_⟩
    rwa [derives_rule_node made (node?_param follows inside), derives_readExpr_param]
  · rintro ⟨number, below, derived⟩
    obtain ⟨other, member, found, inside⟩ := exists_related_of_mem commands below
    exact ⟨other, member, (inner other member _ _ _ found inside).1 derived⟩
  · rintro ⟨other, member, spelled⟩
    obtain ⟨number, below, found, inside⟩ := exists_related_of_mem commands.flip member
    exact ⟨number, below, (inner other member _ _ _ found inside).2 spelled⟩

/-- The node of a command derives the invocations of the command. -/
theorem derives_rule_command (made : ofSchema schema = .ok model) (command : Command) :
    ∀ id parent tokens, model.node? id = some (.ofCommand id parent command) →
      Node.below id command <+: model.nodes.drop (id + 1) →
      ((model.readGrammar mode).Derives (.rule id) tokens ↔ command.Spells mode tokens) := by
  induction command using Command.induction_below with
  | step command inner =>
    intro id parent tokens found follows
    have each (part : List String) :
        (∃ number ∈ (Node.ofCommand id parent command).declared,
            (model.readGrammar mode).Derives (.rule number) part) ↔
          (∃ param ∈ command.params, param.Spells part) ∨
            ∃ other ∈ command.subcommands, other.Spells mode part :=
      derives_declared_iff made follows inner
    rw [derives_rule_node made found, derives_readExpr_command follows, Command.spells_iff]
    simp only [each]

/-- A grammar of a model, as it is read, accepts the invocations of the schema. -/
theorem accepts_iff_spells (made : ofSchema schema = .ok model) :
    (model.readGrammar mode).Accepts tokens ↔ schema.Spells mode tokens := by
  obtain ⟨_, root, follows⟩ := root_stands made
  have start : (model.readGrammar mode).start = 0 := congrArg Node.id root
  rw [Grammar.Accepts, start]
  exact derives_rule_command made schema 0 none tokens (congrArg some root) follows

end Model

end CommandGrammar
