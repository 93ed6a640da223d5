import Mathlib
import CommandGrammar.Proofs.Model.Nodes
import CommandGrammar.Proofs.Schema.Check

/-!
# Where nodes come from

Every node of a model is the node of a command that passes its check, with the nodes below that
command after it, or the node of a parameter that such a command declares. So what the
check finds about a command holds of its node wherever it stands in the tree: no two of its
declarations share a name, and each flag has triggers.
-/

namespace CommandGrammar

namespace Node

/-- Nodes that begin, under a number, with the node of a checked declaration. -/
inductive Comes (id : Nat) : List Node → Prop where
  /-- A parameter of a checked command. -/
  | param {command : Command} {param : Param} {parent : NodeId} {rest : List Node}
      (checked : command.check = .ok ()) (member : param ∈ command.params) :
      Comes id (ofParam id parent param :: rest)
  /-- A checked command, with the nodes below it. -/
  | command {command : Command} {parent : Option NodeId} {rest : List Node}
      (checked : command.check = .ok ()) :
      Comes id (ofCommand id parent command :: (below id command ++ rest))

/-- Each of the nodes, numbered from a number on and followed by further ones, is the node of a
checked declaration. -/
def AllCome (next : Nat) (nodes rest : List Node) : Prop :=
  ∀ place < nodes.length, Comes (next + place) ((nodes ++ rest).drop place)

variable {next : Nat} {node : Node} {nodes more rest : List Node}

/-- The first node has the first number, and the others those after it. -/
theorem AllCome.cons (first : Comes next (node :: (nodes ++ rest)))
    (others : AllCome (next + 1) nodes rest) : AllCome next (node :: nodes) rest := by
  intro place inside
  cases place with
  | zero => exact first
  | succ place =>
    have later := others place (Nat.lt_of_succ_lt_succ inside)
    rwa [show next + 1 + place = next + (place + 1) by omega] at later

/-- The numbers of further nodes follow those of the ones before them. -/
theorem AllCome.append (first : AllCome next nodes (more ++ rest))
    (others : AllCome (next + nodes.length) more rest) : AllCome next (nodes ++ more) rest := by
  intro place inside
  rw [List.length_append] at inside
  rw [List.append_assoc]
  by_cases early : place < nodes.length
  · exact first place early
  · have later := others (place - nodes.length) (by omega)
    rw [List.drop_append, List.drop_of_length_le (by omega), List.nil_append]
    rwa [show next + nodes.length + (place - nodes.length) = next + place by omega] at later

mutual

/-- The nodes below a checked command are those of checked declarations. -/
theorem allCome_below (id : Nat) (command : Command) (rest : List Node)
    (checked : command.check = .ok ()) : AllCome (id + 1) (below id command) rest := by
  have inner := (Command.nests_of_check checked).inner
  cases command with
  | mk name description params subcommands required arity multiple =>
    rw [below]
    refine AllCome.append ?_ ?_
    · intro place inside
      rw [List.length_mapIdx] at inside
      have here : place < (params.mapIdx fun place param =>
          ofParam (id + 1 + place) id param).length := by simpa using inside
      rw [List.drop_append_of_le_length (Nat.le_of_lt here), List.drop_eq_getElem_cons here,
        List.getElem_mapIdx]
      exact .param checked (List.getElem_mem inside)
    · rw [List.length_mapIdx]
      exact allCome_belowAll _ id subcommands rest inner

/-- The nodes of checked commands are those of checked declarations. -/
theorem allCome_belowAll (next parent : Nat) (commands : List Command) (rest : List Node)
    (checked : ∀ command ∈ commands, command.check = .ok ()) :
    AllCome next (belowAll next parent commands) rest := by
  cases commands with
  | nil =>
    intro place inside
    exact absurd inside (Nat.not_lt_zero place)
  | cons command others =>
    have own := checked command List.mem_cons_self
    have inside := allCome_below next command
      (belowAll (next + command.size) parent others ++ rest) own
    have after := allCome_belowAll (next + command.size) parent others rest
      fun other member => checked other (List.mem_cons_of_mem _ member)
    have length := length_below next command
    rw [belowAll, List.cons_append]
    refine AllCome.cons ?_ (AllCome.append inside ?_)
    · rw [List.append_assoc]
      exact .command own
    · rwa [show next + 1 + (below next command).length = next + command.size by omega]

end

end Node

namespace Model

variable {schema : Command} {model : Model} {id : NodeId} {node : Node}

/-- Each node of a model is the node of a checked declaration. -/
theorem comes_of_node? (made : ofSchema schema = .ok model) (found : model.node? id = some node) :
    Node.Comes id (model.nodes.drop id) := by
  obtain ⟨checked, rfl⟩ := ofSchema_eq_ok made
  have root : Node.Comes 0 (.ofCommand 0 none schema :: (Node.below 0 schema ++ [])) :=
    .command checked
  have all := Node.AllCome.cons root (Node.allCome_below 0 schema [] checked)
  obtain ⟨inside, _⟩ := List.getElem?_eq_some_iff.1 found
  have here := all id inside
  rwa [List.append_nil, Nat.zero_add] at here

/-- The nodes from the number of a node on begin with it. -/
theorem drop_of_node? (found : model.node? id = some node) :
    model.nodes.drop id = node :: model.nodes.drop (id + 1) := by
  obtain ⟨inside, rfl⟩ := List.getElem?_eq_some_iff.1 found
  exact List.drop_eq_getElem_cons inside

/-- Nodes of commands are no parameters. -/
theorem isCommand_ofCommand {parent : Option NodeId} {command : Command} :
    (Node.ofCommand id parent command).isCommand = true := by
  unfold Node.isCommand Node.isParam Node.ofCommand
  cases Node.rootIds (id + 1 + command.params.length) command.subcommands <;> rfl

/-- Nodes of parameters are no commands. -/
theorem isCommand_ofParam {parent : NodeId} {param : Param} :
    (Node.ofParam id parent param).isCommand = false := by
  unfold Node.isCommand Node.isParam Node.ofParam
  cases param.form <;> rfl

/-- The kind of a flag's node is its form. -/
theorem form_of_kind {parent : NodeId} {param : Param} {triggers : List String} {takesValue : Bool}
    (kind : (Node.ofParam id parent param).kind = .flag triggers takesValue) :
    param.form = .flag triggers takesValue := by
  unfold Node.ofParam at kind
  cases form : param.form with
  | positional => simp [form] at kind
  | flag => simpa [form] using kind

/-- The node of a command comes from a checked command, and the nodes below it follow. -/
theorem command_of_node? (made : ofSchema schema = .ok model) (found : model.node? id = some node)
    (command : node.isCommand = true) : ∃ (origin : Command) (parent : Option NodeId),
      origin.check = .ok () ∧ node = .ofCommand id parent origin ∧
        Node.below id origin <+: model.nodes.drop (id + 1) := by
  have comes := comes_of_node? made found
  rw [drop_of_node? found] at comes
  generalize model.nodes.drop (id + 1) = later at comes ⊢
  cases comes with
  | param =>
    rw [isCommand_ofParam] at command
    cases command
  | @command origin parent rest checked => exact ⟨origin, parent, checked, rfl, rest, rfl⟩

/-- The node of a parameter comes from a parameter of a checked command. -/
theorem param_of_node? (made : ofSchema schema = .ok model) (found : model.node? id = some node)
    (param : node.isCommand = false) : ∃ (command : Command) (origin : Param) (parent : NodeId),
      command.check = .ok () ∧ origin ∈ command.params ∧ node = .ofParam id parent origin := by
  have comes := comes_of_node? made found
  rw [drop_of_node? found] at comes
  generalize model.nodes.drop (id + 1) = later at comes
  cases comes with
  | @param command origin parent rest checked member =>
    exact ⟨command, origin, parent, checked, member, rfl⟩
  | command =>
    rw [isCommand_ofCommand] at param
    cases param

/-- A flag has triggers, each of which has the form of one. -/
theorem triggers_of_node? (made : ofSchema schema = .ok model) (found : model.node? id = some node)
    {triggers : List String} {takesValue : Bool} (kind : node.kind = .flag triggers takesValue) :
    triggers ≠ [] ∧ ∀ trigger ∈ triggers, isTrigger trigger.toList = true := by
  have param : node.isCommand = false := by simp [Node.isCommand, Node.isParam, kind]
  obtain ⟨command, origin, parent, checked, member, rfl⟩ := param_of_node? made found param
  have form := form_of_kind kind
  refine ⟨((Command.nests_of_check checked).triggered origin member _ _ form).some, ?_⟩
  intro trigger known
  have own : trigger ∈ origin.triggers := by simpa [Param.triggers, form] using known
  exact (Command.declares_of_check checked).formed trigger (List.mem_flatMap.2 ⟨origin, member, own⟩)

/-! ## Declarations -/

/-- A node that stands somewhere among nodes that begin at a number. -/
theorem node?_at {next place : Nat} {nodes : List Node}
    (begins : nodes <+: model.nodes.drop next) (at_place : nodes[place]? = some node) :
    model.node? (next + place) = some node := by
  obtain ⟨rest, same⟩ := begins
  have inside : place < nodes.length := (List.getElem?_eq_some_iff.1 at_place).1
  rw [node?, ← List.getElem?_drop, ← same, List.getElem?_append_left inside, at_place]

/-- The nodes of numbers are those that stand under them. -/
theorem nodesOf_eq {ids : List NodeId} {nodes : List Node}
    (each : List.Forall₂ (fun id node => model.node? id = some node) ids nodes) :
    model.nodesOf ids = nodes := by
  induction each with
  | nil => rfl
  | cons found _ ih =>
    rw [nodesOf, List.filterMap_cons_some found]
    exact congrArg _ ih

/-- The nodes of the parameters of a command stand under the numbers after it, if the nodes below it
follow its number. -/
theorem node?_param {id place : Nat} {command : Command}
    (follows : Node.below id command <+: model.nodes.drop (id + 1))
    (inside : place < command.params.length) :
    model.node? (id + 1 + place) = some (.ofParam (id + 1 + place) id command.params[place]) := by
  apply node?_at follows
  cases command with
  | mk name description params subcommands required arity multiple =>
    have listed : place < (params.mapIdx fun place param =>
        Node.ofParam (id + 1 + place) id param).length := by simpa using inside
    rw [Node.below, List.getElem?_append_left listed, List.getElem?_eq_getElem listed,
      List.getElem_mapIdx]

/-- The nodes of the subcommands of a command and of what is below them follow its parameters. -/
theorem begins_subcommands {id : Nat} {command : Command}
    (follows : Node.below id command <+: model.nodes.drop (id + 1)) :
    Node.belowAll (id + 1 + command.params.length) id command.subcommands <+:
      model.nodes.drop (id + 1 + command.params.length) := by
  cases command with
  | mk name description params subcommands required arity multiple =>
    rw [Node.below] at follows
    have dropped := follows.drop params.length
    rwa [List.drop_drop, List.drop_left' (by simp)] at dropped

/-- Where the nodes of commands begin, that of the first one stands, the nodes below it follow, and
then those of the others. -/
theorem begins_cons {next parent : Nat} {command : Command} {rest : List Command}
    (begins : Node.belowAll next parent (command :: rest) <+: model.nodes.drop next) :
    model.node? next = some (.ofCommand next (some parent) command) ∧
      Node.below next command <+: model.nodes.drop (next + 1) ∧
      Node.belowAll (next + command.size) parent rest <+: model.nodes.drop (next + command.size) := by
  have length := Node.length_below next command
  rw [Node.belowAll] at begins
  refine ⟨@node?_at model _ next 0 _ begins rfl, ?_, ?_⟩
  · have dropped := begins.drop 1
    rw [List.drop_drop, List.cons_append, List.drop_one, List.tail_cons] at dropped
    exact (List.prefix_append _ _).trans dropped
  · have dropped := begins.drop command.size
    rwa [List.drop_drop, List.drop_left' (by simp [length])] at dropped

/-- The nodes of the parameters of a command, if the nodes below it follow its number. -/
theorem nodesOf_params {id : Nat} {command : Command}
    (follows : Node.below id command <+: model.nodes.drop (id + 1)) :
    model.nodesOf (List.range' (id + 1) command.params.length) =
      command.params.mapIdx fun place param => .ofParam (id + 1 + place) id param := by
  refine nodesOf_eq (List.forall₂_iff_get.2 ⟨by simp, fun place first second => ?_⟩)
  rw [List.length_range'] at first
  rw [List.get_eq_getElem, List.getElem_range', Nat.one_mul, List.get_eq_getElem,
    List.getElem_mapIdx]
  exact node?_param follows first

/-- The nodes of commands that follow each other, if they are the nodes from a number on. -/
theorem nodesOf_rootIds {next parent : Nat} {commands : List Command}
    (begins : Node.belowAll next parent commands <+: model.nodes.drop next) :
    List.Forall₂ (fun node command => ∃ id, node = .ofCommand id (some parent) command)
      (model.nodesOf (Node.rootIds next commands)) commands := by
  induction commands generalizing next with
  | nil => exact .nil
  | cons command rest ih =>
    obtain ⟨first, _, after⟩ := begins_cons begins
    rw [Node.rootIds, nodesOf, List.filterMap_cons_some first]
    exact .cons ⟨next, rfl⟩ (ih after)

/-- The nodes of subcommands, if the nodes below their command follow its number. -/
theorem nodesOf_subcommands {id : Nat} {command : Command}
    (follows : Node.below id command <+: model.nodes.drop (id + 1)) :
    List.Forall₂ (fun node command => ∃ number, node = .ofCommand number (some id) command)
      (model.nodesOf (Node.rootIds (id + 1 + command.params.length) command.subcommands))
      command.subcommands :=
  nodesOf_rootIds (begins_subcommands follows)

/-- What a command declares are its parameters and its subcommands, under their own names. -/
theorem names_declared {id : Nat} {parent : Option NodeId} {command : Command}
    (follows : Node.below id command <+: model.nodes.drop (id + 1)) :
    (model.nodesOf (Node.ofCommand id parent command).declared).map Node.name =
      command.params.map Param.name ++ command.subcommands.map Command.name := by
  have params : (model.nodesOf (List.range' (id + 1) command.params.length)).map Node.name =
      command.params.map Param.name := by
    rw [nodesOf_params follows]
    refine List.ext_getElem (by simp) fun place _ _ => ?_
    rw [List.getElem_map, List.getElem_mapIdx, List.getElem_map]
    rfl
  have subcommands : (model.nodesOf (Node.rootIds (id + 1 + command.params.length)
      command.subcommands)).map Node.name = command.subcommands.map Command.name := by
    have each := (nodesOf_subcommands follows).imp fun node command ⟨_, same⟩ =>
      show node.name = command.name from same ▸ rfl
    rwa [← List.forall₂_eq_eq_eq, List.forall₂_map_left_iff, List.forall₂_map_right_iff]
  rw [Node.declared_ofCommand, nodesOf, List.filterMap_append, List.map_append, ← params,
    ← subcommands]
  rfl

/-- What a command declares is found under its own number. -/
theorem node?_of_declared (made : ofSchema schema = .ok model) {ids : List NodeId}
    (declared : node ∈ model.nodesOf ids) : model.node? node.id = some node ∧ node.id ∈ ids := by
  obtain ⟨id, member, found⟩ := List.mem_filterMap.1 declared
  obtain rfl := (stands_of_node? made found).id
  exact ⟨found, member⟩

/-- What a command declares are the nodes of its parameters and of its subcommands. -/
theorem declared_cases {id : Nat} {parent : Option NodeId} {command : Command}
    (follows : Node.below id command <+: model.nodes.drop (id + 1))
    (member : node ∈ model.nodesOf (Node.ofCommand id parent command).declared) :
    (∃ param ∈ command.params, ∃ number, node = .ofParam number id param) ∨
      ∃ inner ∈ command.subcommands, ∃ number, node = .ofCommand number (some id) inner := by
  rw [Node.declared_ofCommand, nodesOf, List.filterMap_append] at member
  rcases List.mem_append.1 member with own | below
  · have params := nodesOf_params follows
    rw [nodesOf] at params
    rw [params] at own
    obtain ⟨place, inside, rfl⟩ := List.mem_mapIdx.1 own
    exact .inl ⟨_, List.getElem_mem inside, _, rfl⟩
  · obtain ⟨place, at_place⟩ := List.mem_iff_getElem?.1 below
    obtain ⟨inner, listed, number, rfl⟩ :=
      exists_related_at (nodesOf_subcommands follows) at_place
    exact .inr ⟨inner, List.mem_of_getElem? listed, number, rfl⟩

/-- What a node declares has the node as its parent. -/
theorem parent_of_declared (made : ofSchema schema = .ok model) {command : Node}
    (found : model.node? id = some command) (declared : node ∈ model.nodesOf command.declared) :
    node.parent = some id := by
  cases group : command.isCommand with
  | true =>
    obtain ⟨origin, parent, _, rfl, follows⟩ := command_of_node? made found group
    rcases declared_cases follows declared with ⟨_, _, _, rfl⟩ | ⟨_, _, _, rfl⟩
    · rfl
    · rfl
  | false =>
    obtain ⟨_, _, _, _, _, rfl⟩ := param_of_node? made found group
    rw [Node.declared_ofParam] at declared
    cases declared

/-- A subcommand is not named like a trigger of a flag beside it. -/
theorem name_ne_trigger (made : ofSchema schema = .ok model) (found : model.node? id = some node)
    {flag inner : Node} {triggers : List String} {takesValue : Bool}
    (declared : flag ∈ model.nodesOf node.declared) (kind : flag.kind = .flag triggers takesValue)
    (beside : inner ∈ model.nodesOf node.declared) (command : inner.isCommand = true)
    {trigger : String} (known : trigger ∈ triggers) : inner.name ≠ trigger := by
  rintro rfl
  cases group : node.isCommand with
  | true =>
    obtain ⟨origin, parent, checked, rfl, follows⟩ := command_of_node? made found group
    rcases declared_cases follows declared with
      ⟨param, member, number, rfl⟩ | ⟨other, _, number, rfl⟩
    · have form : param.form = .flag triggers takesValue := form_of_kind kind
      have triggered := (Command.nests_of_check checked).triggered param member _ _ form
      rcases declared_cases follows beside with ⟨_, _, _, rfl⟩ | ⟨other, listed, _, rfl⟩
      · rw [isCommand_ofParam] at command
        cases command
      · exact triggered.apart _ known (List.mem_map_of_mem listed)
    · have param : (Node.ofCommand number (some id) other).isCommand = false := by
        simp [Node.isCommand, Node.isParam, kind]
      rw [isCommand_ofCommand] at param
      cases param
  | false =>
    obtain ⟨command, origin, parent, _, _, rfl⟩ := param_of_node? made found group
    rw [Node.declared_ofParam] at declared
    cases declared

/-- No two declarations of a node share a name. -/
theorem names_nodup (made : ofSchema schema = .ok model) (found : model.node? id = some node) :
    ((model.nodesOf node.declared).map Node.name).Nodup := by
  cases command : node.isCommand with
  | true =>
    obtain ⟨origin, parent, checked, rfl, follows⟩ := command_of_node? made found command
    rw [names_declared follows]
    exact (Command.nests_of_check checked).fields
  | false =>
    obtain ⟨command, origin, parent, _, _, rfl⟩ := param_of_node? made found command
    rw [Node.declared_ofParam]
    exact List.nodup_nil

end Model

end CommandGrammar
