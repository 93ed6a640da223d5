import Mathlib
import CommandGrammar.Model
import CommandGrammar.Proofs.Placed

/-!
# The nodes of a model

The nodes of a model stand under their own numbers, and what a command declares are
later nodes in increasing order. So a node is found by its number, no declaration counts
twice, and a command never declares itself or a command around it.
-/

namespace CommandGrammar

/-- Items have results together exactly if each of them has its own. -/
theorem mapM_eq_some_iff {α β : Type} {f : α → Option β} {items : List α} {results : List β} :
    items.mapM f = some results ↔ items.map f = results.map some := by
  induction items generalizing results with
  | nil => cases results <;> simp
  | cons item rest ih =>
    rw [List.mapM_cons, List.map_cons]
    cases own : f item with
    | none => cases results <;> simp
    | some result =>
      cases results with
      | nil => simp [Option.bind_eq_some_iff]
      | cons first others => simp [Option.bind_eq_some_iff, ih, and_comm]

/-- If items have results together, each of them has one. -/
theorem isSome_of_map_eq {α β : Type} {f : α → Option β} {items : List α} {results : List β}
    (same : items.map f = results.map some) {item : α} (member : item ∈ items) :
    (f item).isSome = true := by
  have own : f item ∈ items.map f := List.mem_map_of_mem member
  rw [same] at own
  obtain ⟨result, _, known⟩ := List.mem_map.1 own
  rw [← known, Option.isSome_some]

/-- If items have results together, they have the same ones with any other value to fall back on. -/
theorem map_getD_of_map_eq {α β : Type} {f : α → Option β} {items : List α} {results : List β}
    (same : items.map f = results.map some) (other : β) :
    (items.map fun item => (f item).getD other) = results := by
  have each := congrArg (List.map (Option.getD · other)) same
  simpa [Function.comp_def] using each

namespace Node

/-- A node under its number, of a model of some size, with its declarations after it. -/
structure Stands (size index : Nat) (node : Node) : Prop where
  /-- Its number. -/
  id : node.id = index
  /-- It declares later nodes. -/
  later : ∀ id : Nat, id ∈ node.declared → index < id
  /-- It declares nodes of the model. -/
  known : ∀ id : Nat, id ∈ node.declared → id < size
  /-- It declares them in increasing order. -/
  increasing : node.declared.Pairwise (· < ·)

variable {size : Nat}

mutual

/-- A command has as many nodes as it has size, itself included. -/
theorem length_below (id : Nat) (command : Command) :
    (below id command).length + 1 = command.size := by
  cases command with
  | mk name description params subcommands required arity multiple =>
    rw [below, Command.size, List.length_append, List.length_mapIdx,
      length_belowAll _ _ subcommands]
    omega

/-- Several commands have as many nodes as they have size. -/
theorem length_belowAll (next parent : Nat) (commands : List Command) :
    (belowAll next parent commands).length = Command.sizeAll commands := by
  cases commands with
  | nil => rfl
  | cons command rest =>
    have head := length_below next command
    have tail := length_belowAll (next + command.size) parent rest
    rw [belowAll, Command.sizeAll, List.cons_append, List.length_cons, List.length_append, tail]
    omega

end

/-- The numbers of commands that follow each other begin where they say and end in time. -/
theorem mem_rootIds {next id : Nat} {commands : List Command}
    (member : id ∈ rootIds next commands) :
    next ≤ id ∧ id < next + Command.sizeAll commands := by
  induction commands generalizing next with
  | nil => cases member
  | cons command rest ih =>
    have positive := length_below next command
    rw [Command.sizeAll]
    rcases List.mem_cons.1 member with rfl | later
    · omega
    · have bounds := ih later
      omega

/-- The numbers of commands that follow each other increase. -/
theorem rootIds_increasing {next : Nat} {commands : List Command} :
    (rootIds next commands).Pairwise (· < ·) := by
  induction commands generalizing next with
  | nil => exact .nil
  | cons command rest ih =>
    have positive := length_below next command
    refine .cons (fun id later => ?_) ih
    have after : next < next + command.size := by omega
    exact Nat.lt_of_lt_of_le after (mem_rootIds later).1

/-- What the node of a command declares. -/
theorem declared_ofCommand {id : Nat} {parent : Option NodeId} {command : Command} :
    (ofCommand id parent command).declared =
      List.range' (id + 1) command.params.length ++
        rootIds (id + 1 + command.params.length) command.subcommands := by
  unfold ofCommand declared params subcommands
  simp only
  by_cases empty : (rootIds (id + 1 + command.params.length) command.subcommands).isEmpty = true
  · rw [if_pos empty, List.isEmpty_iff.1 empty]
  · rw [if_neg empty]

/-- The node of a parameter declares nothing. -/
theorem declared_ofParam {id parent : NodeId} {param : Param} :
    (ofParam id parent param).declared = [] := by
  unfold ofParam declared params subcommands
  cases param.form <;> rfl

/-- The node of a parameter stands under its number. -/
theorem stands_ofParam {id parent : Nat} {param : Param} :
    Stands size id (ofParam id parent param) := by
  refine ⟨rfl, ?_, ?_, ?_⟩
  · simp [declared_ofParam]
  · simp [declared_ofParam]
  · simp [declared_ofParam]

/-- The node of a command stands under its number, if all of the command is part of the model. -/
theorem stands_ofCommand {id : Nat} {parent : Option NodeId} {command : Command}
    (fits : id + command.size ≤ size) : Stands size id (ofCommand id parent command) := by
  cases command with
  | mk name description params subcommands required arity multiple =>
    rw [Command.size] at fits
    have bounds : ∀ declared : Nat, declared ∈ (ofCommand id parent ⟨name, description, params,
        subcommands, required, arity, multiple⟩).declared → id < declared ∧ declared < size := by
      intro declared member
      rw [declared_ofCommand] at member
      rcases List.mem_append.1 member with own | below
      · have inside := List.mem_range'_1.1 own
        simp only at inside
        omega
      · have inside := mem_rootIds below
        simp only at inside
        omega
    refine ⟨rfl, fun declared member => (bounds declared member).1,
      fun declared member => (bounds declared member).2, ?_⟩
    rw [declared_ofCommand]
    refine List.pairwise_append.2 ⟨List.pairwise_lt_range', rootIds_increasing, ?_⟩
    intro first own later below
    exact Nat.lt_of_lt_of_le (List.mem_range'_1.1 own).2 (mem_rootIds below).1

mutual

/-- The nodes below a command stand under their numbers. -/
theorem below_stands (id : Nat) (command : Command) (fits : id + command.size ≤ size) :
    Placed (Stands size) (id + 1) (below id command) := by
  cases command with
  | mk name description params subcommands required arity multiple =>
    rw [Command.size] at fits
    rw [below]
    refine placed_append_iff.2 ⟨?_, ?_⟩
    · intro place node found
      rw [List.getElem?_mapIdx] at found
      obtain ⟨param, _, rfl⟩ := Option.map_eq_some_iff.1 found
      exact stands_ofParam
    · rw [List.length_mapIdx]
      exact belowAll_stands _ id subcommands (by omega)

/-- The nodes of commands that follow each other stand under their numbers. -/
theorem belowAll_stands (next parent : Nat) (commands : List Command)
    (fits : next + Command.sizeAll commands ≤ size) :
    Placed (Stands size) next (belowAll next parent commands) := by
  cases commands with
  | nil => exact placed_nil
  | cons command rest =>
    rw [Command.sizeAll] at fits
    have head : Stands size next (ofCommand next (some parent) command) :=
      stands_ofCommand (by omega)
    have below := below_stands next command (by omega)
    have tail := belowAll_stands (next + command.size) parent rest (by omega)
    rw [belowAll, List.cons_append]
    refine placed_cons_iff.2 ⟨head, placed_append_iff.2 ⟨below, ?_⟩⟩
    have length := length_below next command
    rwa [show next + 1 + (Node.below next command).length = next + command.size by omega]

end

end Node

namespace Model

variable {schema : Command} {model : Model}

/-- A schema without fault has a model. -/
theorem exists_model (valid : schema.faults = []) : ∃ model, ofSchema schema = .ok model := by
  rw [Command.faults] at valid
  cases checked : schema.check with
  | error fault =>
    rw [checked] at valid
    cases valid
  | ok =>
    rw [ofSchema, checked]
    exact ⟨_, rfl⟩

/-- A schema with a model passes its check, and the model lists its nodes. -/
theorem ofSchema_eq_ok (made : ofSchema schema = .ok model) :
    schema.check = .ok () ∧ model = ⟨.ofCommand 0 none schema, Node.below 0 schema⟩ := by
  unfold ofSchema at made
  cases passed : schema.check with
  | error fault =>
    rw [passed] at made
    cases made
  | ok =>
    rw [passed] at made
    cases made
    exact ⟨rfl, rfl⟩

/-- The nodes of a model stand under their numbers. -/
theorem nodes_stand (made : ofSchema schema = .ok model) :
    Placed (Node.Stands model.size) 0 model.nodes := by
  obtain ⟨_, rfl⟩ := ofSchema_eq_ok made
  have length := Node.length_below 0 schema
  have size : (⟨.ofCommand 0 none schema, Node.below 0 schema⟩ : Model).size = schema.size := by
    simpa [Model.size, nodes] using length
  rw [size, nodes]
  exact placed_cons_iff.2 ⟨Node.stands_ofCommand (by omega),
    Node.below_stands 0 schema (by omega)⟩

/-- A node is found under its number only. -/
theorem stands_of_node? (made : ofSchema schema = .ok model) {id : NodeId} {node : Node}
    (found : model.node? id = some node) : Node.Stands model.size id node := by
  have stands := nodes_stand made id node found
  rwa [Nat.zero_add] at stands

/-- A node is found under its number. -/
theorem node?_id (made : ofSchema schema = .ok model) {node : Node} (member : node ∈ model.nodes) :
    model.node? node.id = some node := by
  obtain ⟨place, found⟩ := List.mem_iff_getElem?.1 member
  rwa [(stands_of_node? made found).id]

/-- What a node declares are nodes. -/
theorem node?_declared (made : ofSchema schema = .ok model) {node : Node}
    (member : node ∈ model.nodes)
    {id : NodeId} (declared : id ∈ node.declared) : ∃ other, model.node? id = some other :=
  ⟨_, List.getElem?_eq_getElem ((stands_of_node? made (node?_id made member)).known id declared)⟩

/-- A node declares no node twice. -/
theorem declared_nodup (made : ofSchema schema = .ok model) {node : Node}
    (member : node ∈ model.nodes) : node.declared.Nodup :=
  (stands_of_node? made (node?_id made member)).increasing.imp fun below => Nat.ne_of_lt below

/-- The nodes of numbers that a node declares have these numbers. -/
theorem ids_nodesOf (made : ofSchema schema = .ok model) {ids : List NodeId}
    (known : ∀ id ∈ ids, id < model.size) : (model.nodesOf ids).map Node.id = ids := by
  induction ids with
  | nil => rfl
  | cons id rest ih =>
    have found : model.node? id = some _ := List.getElem?_eq_getElem (known id List.mem_cons_self)
    have tail := ih fun other member => known other (List.mem_cons_of_mem _ member)
    rw [nodesOf, List.filterMap_cons_some found, List.map_cons, (stands_of_node? made found).id]
    exact congrArg (id :: ·) tail

/-- No two nodes are the same. -/
theorem nodes_nodup (made : ofSchema schema = .ok model) : model.nodes.Nodup := by
  have numbers : model.nodes.map Node.id = List.range model.size := by
    refine List.ext_getElem (by simp [size]) fun place inside _ => ?_
    rw [List.length_map] at inside
    have found : model.node? place = some model.nodes[place] := List.getElem?_eq_getElem inside
    rw [List.getElem_map, List.getElem_range, (stands_of_node? made found).id]
  exact List.Nodup.of_map Node.id (numbers ▸ List.nodup_range)

end Model

/-! ## Nodes below the root -/

namespace Node

mutual

/-- The nodes below a command have a parent. -/
theorem parent_below (id : NodeId) (command : Command) :
    ∀ node ∈ below id command, node.parent.isSome = true := by
  cases command with
  | mk name description params subcommands required arity multiple =>
    intro node member
    rw [below] at member
    rcases List.mem_append.1 member with own | later
    · obtain ⟨place, _, rfl⟩ := List.mem_mapIdx.1 own
      rfl
    · exact parent_belowAll _ id subcommands node later

/-- The nodes of commands under a parent have a parent. -/
theorem parent_belowAll (next parent : NodeId) (commands : List Command) :
    ∀ node ∈ belowAll next parent commands, node.parent.isSome = true := by
  cases commands with
  | nil => simp [belowAll]
  | cons command rest =>
    intro node member
    rw [belowAll] at member
    rcases List.mem_append.1 member with head | tail
    · rcases List.mem_cons.1 head with rfl | inside
      · rfl
      · exact parent_below next command node inside
    · exact parent_belowAll (next + command.size) parent rest node tail

end

end Node

namespace Model

variable {schema : Command} {model : Model} {node : Node} {id : NodeId}

/-- The root has no parent and is no parameter. -/
theorem root_of_ofSchema (made : ofSchema schema = .ok model) :
    model.root.parent = none ∧ model.root.isParam = false := by
  obtain ⟨_, rfl⟩ := ofSchema_eq_ok made
  refine ⟨rfl, ?_⟩
  unfold Node.ofCommand
  cases Node.rootIds (0 + 1 + schema.params.length) schema.subcommands <;> rfl

/-- A node with a parent is below the root. -/
theorem mem_others_of_parent (made : ofSchema schema = .ok model) (member : node ∈ model.nodes)
    (below : node.parent.isSome = true) : node ∈ model.others := by
  rcases List.mem_cons.1 member with rfl | other
  · rw [(root_of_ofSchema made).1] at below
    cases below
  · exact other

/-- A node of a parameter is below the root. -/
theorem mem_others_of_isParam (made : ofSchema schema = .ok model) (member : node ∈ model.nodes)
    (param : node.isParam = true) : node ∈ model.others := by
  rcases List.mem_cons.1 member with rfl | other
  · rw [(root_of_ofSchema made).2] at param
    cases param
  · exact other

/-- What a command declares is below the root. -/
theorem mem_others_of_declared (made : ofSchema schema = .ok model) {command : Node}
    (found : model.node? id = some command) (member : node ∈ model.nodesOf command.declared) :
    node ∈ model.others := by
  obtain ⟨declared, inside, named⟩ := List.mem_filterMap.1 member
  have later : id < declared := (stands_of_node? made found).later declared inside
  cases declared with
  | zero => exact absurd later (Nat.not_lt_zero id)
  | succ place => exact List.mem_of_getElem? named

/-- A node below the root has a parent. -/
theorem parent_of_mem_others (made : ofSchema schema = .ok model) (member : node ∈ model.others) :
    node.parent.isSome = true := by
  obtain ⟨_, rfl⟩ := ofSchema_eq_ok made
  exact Node.parent_below 0 schema node member

end Model

end CommandGrammar
