import Mathlib
import CommandGrammar.Proofs.Model.Paths

/-!
# A model unfolds to its schema

A model keeps a command tree as a list of nodes that refer to each other by number. Followed from
the root along what the nodes declare, the references give the tree back: the same commands and
parameters in the same order, with the defaults decoded. The place of a node in the list is its
place in the pre-order of the tree, and the way up from it passes the names of the way down to it.
-/

namespace CommandGrammar

/-! ## Trees -/

/-- What a model keeps of a parameter: all but the description, with the default decoded. -/
def Param.recorded (param : Param) : Param :=
  { param with
    default := param.default.bind fun value => (param.decoder.decodeDefault value).toOption
    description := none }

namespace Command

mutual

/-- What a model keeps of a command tree: all but the descriptions, with the defaults decoded. -/
def recorded : Command → Command
  | ⟨name, _, params, subcommands, required, arity, multiple⟩ =>
    ⟨name, none, params.map Param.recorded, recordedAll subcommands, required, arity, multiple⟩

/-- What a model keeps of several command trees. -/
def recordedAll : List Command → List Command
  | [] => []
  | command :: rest => command.recorded :: recordedAll rest

end

end Command

/-- What a place of a command tree holds. -/
inductive Declaration where
  /-- A command with all that is below it. -/
  | command (tree : Command)
  /-- A parameter. -/
  | param (leaf : Param)

/-- What a model keeps of a declaration. -/
def Declaration.recorded : Declaration → Declaration
  | .command tree => .command tree.recorded
  | .param leaf => .param leaf.recorded

namespace Command

mutual

/-- The declarations of a tree in pre-order, each with the names that lead to it from the top of
the tree, given those that lead to the top. -/
def listing (path : List String) : Command → List (List String × Declaration)
  | ⟨name, description, params, subcommands, required, arity, multiple⟩ =>
    (path, .command ⟨name, description, params, subcommands, required, arity, multiple⟩) ::
      (params.map (fun param => (path ++ [param.name], .param param)) ++
        listingAll path subcommands)

/-- The declarations of trees that stand side by side. -/
def listingAll (path : List String) : List Command → List (List String × Declaration)
  | [] => []
  | command :: rest => command.listing (path ++ [command.name]) ++ listingAll path rest

end

mutual

/-- A tree has as many declarations as it has size. -/
theorem length_listing (path : List String) (command : Command) :
    (command.listing path).length = command.size := by
  cases command with
  | mk name description params subcommands required arity multiple =>
    rw [listing, List.length_cons, List.length_append, List.length_map,
      length_listingAll path subcommands, Command.size]
    omega

/-- Several trees have as many declarations as they have size. -/
theorem length_listingAll (path : List String) (commands : List Command) :
    (listingAll path commands).length = Command.sizeAll commands := by
  cases commands with
  | nil => rfl
  | cons command rest =>
    rw [listingAll, List.length_append, length_listing, length_listingAll path rest,
      Command.sizeAll]

end

end Command

/-! ## Unfolding -/

/-- The parameter that a node describes. -/
def Node.param? (node : Node) : Option Param :=
  let described (form : ParamForm) : Param :=
    { name := node.name
      form
      arity := node.arity
      required := node.required
      multiple := node.multiple
      default := node.default
      kind := node.decoder.kind
      choices := node.decoder.choices
      reader := node.decoder.reader }
  match node.kind with
  | .flag triggers takesValue => some (described (.flag triggers takesValue))
  | .positional => some (described .positional)
  | .command _ | .group .. => none

namespace Model

/-- The command tree that the node of a number begins, followed along what nodes declare. A number
without node, a parameter among subcommands and a command among parameters leave no tree. The fuel
bounds the height. -/
def unfold (model : Model) : Nat → NodeId → Option Command
  | 0, _ => none
  | fuel + 1, id => do
    let node ← model.node? id
    let params ← node.params.mapM fun id => (model.node? id).bind Node.param?
    let subcommands ← node.subcommands.mapM (unfold model fuel)
    if node.isCommand then
      some { name := node.name, params, subcommands, required := node.required,
             arity := node.arity, multiple := node.multiple }
    else none

/-- What the node of a number stands for. -/
def declaration? (model : Model) (id : NodeId) : Option Declaration :=
  (model.node? id).bind fun node =>
    if node.isParam then node.param?.map .param else (model.unfold model.size id).map .command

variable {schema : Command} {model : Model} {path : List String}

/-- The default of an accepted parameter is decoded. -/
theorem decodes_of_check {command : Command} (checked : command.check = .ok ()) {param : Param}
    (member : param ∈ command.params) {value : Value} (declared : param.default = some value) :
    ∃ decoded, param.decoder.decodeDefault value = .ok decoded := by
  have formed := (Command.check_eq_ok_iff.1 checked).1.params param member
  exact (Decoder.decodeDefault_isOk_iff param.decoder value).2 (formed.defaulted value declared)

/-- The node of an accepted parameter describes the parameter with its default decoded. -/
theorem param?_ofParam {command : Command} (checked : command.check = .ok ()) {param : Param}
    (member : param ∈ command.params) (id parent : NodeId) :
    (Node.ofParam id parent param).param? = some param.recorded := by
  -- The default is decoded, so the node never keeps it as it was declared.
  have decoded : (Node.ofParam id parent param).default = param.recorded.default := by
    rw [Node.ofParam, Param.recorded]
    cases declared : param.default with
    | none => rfl
    | some value =>
      obtain ⟨decoded, decodes⟩ := decodes_of_check checked member declared
      simp only [Option.map_some, Option.bind_some, decodes, Except.toOption]
  rw [Node.param?]
  cases form : param.form with
  | positional | flag =>
    simp only [Node.ofParam, form, Param.recorded, Param.decoder] at decoded ⊢
    rw [decoded]

/-- The kind of a command's node tells its declarations, and whether there are subcommands. -/
theorem declares_ofCommand (id : Nat) (parent : Option NodeId) (command : Command) :
    (Node.ofCommand id parent command).params = List.range' (id + 1) command.params.length ∧
      (Node.ofCommand id parent command).subcommands =
        Node.rootIds (id + 1 + command.params.length) command.subcommands := by
  rw [Node.ofCommand, Node.params, Node.subcommands]
  simp only
  cases Node.rootIds (id + 1 + command.params.length) command.subcommands with
  | nil => exact ⟨rfl, rfl⟩
  | cons => exact ⟨rfl, rfl⟩

/-- The numbers of the parameters of a command lead to what the model keeps of them. -/
theorem mapM_params {id : Nat} {command : Command} (checked : command.check = .ok ())
    (follows : Node.below id command <+: model.nodes.drop (id + 1)) :
    (List.range' (id + 1) command.params.length).mapM
      (fun number => (model.node? number).bind Node.param?) =
        some (command.params.map Param.recorded) := by
  refine mapM_eq_some_iff.2 (List.ext_getElem (by simp) fun place first second => ?_)
  rw [List.length_map, List.length_range'] at first
  rw [List.getElem_map, List.getElem_range', Nat.one_mul, node?_param follows first,
    Option.bind_some, param?_ofParam checked (List.getElem_mem first), List.getElem_map,
    List.getElem_map]

mutual

/-- A command whose node and the nodes below it stand in the model is unfolded from its number. -/
theorem unfold_command {id : Nat} {parent : Option NodeId} (command : Command) {fuel : Nat}
    (checked : command.check = .ok ())
    (found : model.node? id = some (.ofCommand id parent command))
    (follows : Node.below id command <+: model.nodes.drop (id + 1)) (enough : command.size ≤ fuel) :
    model.unfold fuel id = some command.recorded := by
  have inner := (Command.nests_of_check checked).inner
  have params := mapM_params checked follows
  have begins := begins_subcommands follows
  obtain ⟨own, nested⟩ := declares_ofCommand id parent command
  have kind := @isCommand_ofCommand id parent command
  cases command with
  | mk name description declared subcommands required arity multiple =>
    rw [Command.size] at enough
    obtain ⟨less, rfl⟩ : ∃ less, fuel = less + 1 := ⟨fuel - 1, by omega⟩
    have below := unfold_commands subcommands inner begins (show _ ≤ less by omega)
    rw [unfold, found, Option.bind_eq_bind, Option.bind_some]
    simp only [own, nested, params, below, kind, Option.bind_some, if_true, bind, Command.recorded]
    rfl

/-- Commands whose nodes stand in the model one after the other are unfolded from their numbers. -/
theorem unfold_commands {next parent : Nat} (commands : List Command) {fuel : Nat}
    (checked : ∀ command ∈ commands, command.check = .ok ())
    (begins : Node.belowAll next parent commands <+: model.nodes.drop next)
    (enough : Command.sizeAll commands ≤ fuel) :
    (Node.rootIds next commands).mapM (model.unfold fuel) =
      some (Command.recordedAll commands) := by
  cases commands with
  | nil => rfl
  | cons command rest =>
    obtain ⟨own, others⟩ := List.forall_mem_cons.1 checked
    obtain ⟨found, follows, after⟩ := begins_cons begins
    rw [Command.sizeAll] at enough
    have first := unfold_command command own found follows (show _ ≤ fuel by omega)
    have later := unfold_commands rest others after (show _ ≤ fuel by omega)
    rw [Node.rootIds, List.mapM_cons, first, later]
    rfl

end

/-! ## Places -/

/-- The node of a number stands for a declaration, and its field path is the path to that. The
default of a parameter is decoded. -/
structure Shows (model : Model) (id : Nat) (place : List String × Declaration) : Prop where
  /-- The names that lead to it. -/
  path : model.fieldPath id = place.1
  /-- What it stands for. -/
  declaration : model.declaration? id = some place.2.recorded
  /-- Its default has been decoded. -/
  decodes : ∀ param value, place.2 = .param param → param.default = some value →
    ∃ decoded, param.decoder.decodeDefault value = .ok decoded

/-- The node of a command stands for the command. -/
theorem declaration?_command {id : Nat} {parent : Option NodeId} {command : Command}
    (checked : command.check = .ok ())
    (found : model.node? id = some (.ofCommand id parent command))
    (follows : Node.below id command <+: model.nodes.drop (id + 1)) :
    model.declaration? id = some (.command command.recorded) := by
  have enough : command.size ≤ model.size := by
    have fits := follows.length_le
    have length := Node.length_below id command
    have inside := (List.getElem?_eq_some_iff.1 found).1
    rw [List.length_drop] at fits
    rw [Model.size]
    omega
  have command : (Node.ofCommand id parent command).isParam = false := by
    simpa [Node.isCommand] using @isCommand_ofCommand id parent command
  rw [declaration?, found, Option.bind_some, command, unfold_command _ checked found follows enough]
  rfl

/-- The node of a parameter stands for the parameter. -/
theorem declaration?_param {command : Command} (checked : command.check = .ok ()) {param : Param}
    (member : param ∈ command.params) {id parent : NodeId}
    (found : model.node? id = some (.ofParam id parent param)) :
    model.declaration? id = some (.param param.recorded) := by
  have kind : (Node.ofParam id parent param).isParam = true := by
    simpa [Node.isCommand] using @isCommand_ofParam id parent param
  rw [declaration?, found, Option.bind_some, kind, param?_ofParam checked member]
  rfl

/-- What a node declares is reached from it by its own name. -/
theorem reaches_declared {outer node : Node} {id : NodeId} (above : model.Reaches path outer)
    (declared : id ∈ outer.declared) (found : model.node? id = some node) :
    model.Reaches (path ++ [node.name]) node :=
  .declared above (List.mem_filterMap.2 ⟨id, declared, found⟩)

/-- The parameters of a command that is reached stand under the numbers after its own. -/
theorem shows_params (made : ofSchema schema = .ok model) {id : Nat} {parent : Option NodeId}
    {command : Command} (checked : command.check = .ok ())
    (reaches : model.Reaches path (.ofCommand id parent command))
    (follows : Node.below id command <+: model.nodes.drop (id + 1)) :
    Placed model.Shows (id + 1)
      (command.params.map fun param => (path ++ [param.name], .param param)) := by
  intro place entry listed
  rw [List.getElem?_map] at listed
  obtain ⟨param, at_place, rfl⟩ := Option.map_eq_some_iff.1 listed
  obtain ⟨inside, rfl⟩ := List.getElem?_eq_some_iff.1 at_place
  have found := node?_param follows inside
  have member := List.getElem_mem inside
  have declared : id + 1 + place ∈ (Node.ofCommand id parent command).declared := by
    rw [Node.declared_ofCommand]
    exact List.mem_append_left _ (List.mem_range'_1.2 (by omega))
  constructor
  case path => exact fieldPath_of_reaches made (reaches_declared reaches declared found)
  case declaration => exact declaration?_param checked member found
  case decodes =>
    rintro _ value ⟨⟩ default
    exact decodes_of_check checked member default

mutual

/-- The declarations of a command that is reached stand under its number and those after it. -/
theorem shows_listing (made : ofSchema schema = .ok model) {id : Nat} {parent : Option NodeId}
    (command : Command) {path : List String} (checked : command.check = .ok ())
    (reaches : model.Reaches path (.ofCommand id parent command))
    (follows : Node.below id command <+: model.nodes.drop (id + 1)) :
    Placed model.Shows id (command.listing path) := by
  have inner := (Command.nests_of_check checked).inner
  have found : model.node? id = some (.ofCommand id parent command) := reaches.known made
  have own : model.Shows id (path, .command command) := by
    constructor
    case path => exact fieldPath_of_reaches made reaches
    case declaration => exact declaration?_command checked found follows
    case decodes => rintro param value ⟨⟩
  have params := shows_params made checked reaches follows
  have begins := begins_subcommands follows
  have declared : ∀ number ∈ Node.rootIds (id + 1 + command.params.length) command.subcommands,
      number ∈ (Node.ofCommand id parent command).declared := by
    intro number member
    rw [Node.declared_ofCommand]
    exact List.mem_append_right _ member
  cases command with
  | mk name description params' subcommands required arity multiple =>
    have below := shows_listingAll made subcommands inner reaches declared begins
    rw [Command.listing, placed_cons_iff, placed_append_iff, List.length_map]
    exact ⟨own, params, below⟩

/-- So do the declarations of commands that a reached node declares one after the other. -/
theorem shows_listingAll (made : ofSchema schema = .ok model) {next parent : Nat}
    (commands : List Command) {path : List String} {outer : Node}
    (checked : ∀ command ∈ commands, command.check = .ok ())
    (above : model.Reaches path outer)
    (declared : ∀ id ∈ Node.rootIds next commands, id ∈ outer.declared)
    (begins : Node.belowAll next parent commands <+: model.nodes.drop next) :
    Placed model.Shows next (Command.listingAll path commands) := by
  cases commands with
  | nil => exact placed_nil
  | cons command rest =>
    obtain ⟨own, others⟩ := List.forall_mem_cons.1 checked
    rw [Node.rootIds] at declared
    obtain ⟨here, later⟩ := List.forall_mem_cons.1 declared
    obtain ⟨found, follows, after⟩ := begins_cons begins
    have reaches := reaches_declared above here found
    have first := shows_listing made command own reaches follows
    have tail := shows_listingAll made rest others above later after
    rw [Command.listingAll, placed_append_iff, Command.length_listing]
    exact ⟨first, tail⟩

end

/-! ## The way up -/

/-- The way up from a node to one without parent, and the names on it from the top down, that of the
topmost node left out. -/
inductive Climbs (model : Model) : NodeId → List String → Prop where
  /-- A node without parent is the end. -/
  | top {id : NodeId} {node : Node} (found : model.node? id = some node)
      (last : node.parent = none) : Climbs model id []
  /-- From any other node the way goes on from its parent. -/
  | up {id above : NodeId} {node : Node} {path : List String} (found : model.node? id = some node)
      (parent : node.parent = some above) (rest : Climbs model above path) :
      Climbs model id (path ++ [node.name])

/-- The way up from a node that is reached has an end, and passes the names that lead to it. -/
theorem climbs_of_reaches (made : ofSchema schema = .ok model) {node : Node}
    (reaches : model.Reaches path node) : model.Climbs node.id path := by
  induction reaches with
  | root => exact .top (node?_id made List.mem_cons_self) (root_of_ofSchema made).1
  | declared above member ih =>
    have found := (node?_of_declared made member).1
    exact .up found (parent_of_declared made (above.known made) member) ih

/-- A node below the root is listed once by its parent, an earlier node. -/
theorem parent_of_others (made : ofSchema schema = .ok model) {node : Node}
    (member : node ∈ model.others) : ∃ outer ∈ model.nodes, node.parent = some outer.id ∧
      outer.id < node.id ∧ outer.declared.count node.id = 1 := by
  obtain ⟨outer, listed, declared⟩ := exists_declaring made member
  have known := node?_id made listed
  exact ⟨outer, listed, parent_of_declared made known declared,
    id_lt_of_declared made known declared,
    List.count_eq_one_of_mem (declared_nodup made listed) (node?_of_declared made declared).2⟩

/-- A command is a group exactly if it lists subcommands. -/
theorem isGroup_iff (made : ofSchema schema = .ok model) {node : Node} (member : node ∈ model.nodes)
    (command : node.isCommand = true) :
    (∃ params subcommands, node.kind = .group params subcommands) ↔ node.subcommands ≠ [] := by
  obtain ⟨origin, parent, _, same, _⟩ := command_of_node? made (node?_id made member) command
  rw [same, Node.ofCommand, Node.subcommands]
  cases Node.rootIds (node.id + 1 + origin.params.length) origin.subcommands with
  | nil => simp
  | cons => simp

/-- The nodes of a model are a command tree in pre-order. -/
structure Represents (model : Model) (schema : Command) : Prop where
  /-- There are as many nodes as commands and parameters. -/
  size : model.size = schema.size
  /-- The place of a node is its number. -/
  numbered : ∀ (id : NodeId) (node : Node), model.nodes[id]? = some node → node.id = id
  /-- The first node, and no other one, has no parent. -/
  rooted : ∀ node ∈ model.nodes, node.parent = none ↔ node.id = 0
  /-- Any other node's parent is an earlier node, which lists it once. -/
  parented : ∀ node ∈ model.nodes, node.id ≠ 0 → ∃ outer ∈ model.nodes,
    node.parent = some outer.id ∧ outer.id < node.id ∧
      (outer.params ++ outer.subcommands).count node.id = 1
  /-- The groups are the commands with subcommands. -/
  grouped : ∀ node ∈ model.nodes, node.isCommand = true →
    ((∃ params subcommands, node.kind = .group params subcommands) ↔ node.subcommands ≠ [])
  /-- From the root the nodes unfold to the tree. -/
  unfolds : model.unfold model.size model.root.id = some schema.recorded
  /-- There is one node for each place of the tree. -/
  places : (schema.listing []).length = model.size
  /-- It stands for what the tree has there. -/
  stands : ∀ (id : NodeId) (path : List String) (declaration : Declaration),
    (schema.listing [])[id]? = some (path, declaration) →
      model.declaration? id = some declaration.recorded
  /-- The way up from it comes to an end, and its field path is the path to that place. -/
  climbs : ∀ (id : NodeId) (path : List String) (declaration : Declaration),
    (schema.listing [])[id]? = some (path, declaration) →
      model.Climbs id path ∧ model.fieldPath id = path
  /-- Every default in the tree is decoded. -/
  decodes : ∀ path param value, (path, Declaration.param param) ∈ schema.listing [] →
    param.default = some value → ∃ decoded, param.decoder.decodeDefault value = .ok decoded

/-- The root is the node of the schema, and the nodes below that follow. -/
theorem root_stands (made : ofSchema schema = .ok model) :
    schema.check = .ok () ∧ model.root = .ofCommand 0 none schema ∧
      Node.below 0 schema <+: model.nodes.drop 1 := by
  obtain ⟨checked, rfl⟩ := ofSchema_eq_ok made
  exact ⟨checked, rfl, List.prefix_refl _⟩

/-- The places of a tree stand for the nodes of its model. -/
theorem shows_of_listing (made : ofSchema schema = .ok model) {id : NodeId}
    {place : List String × Declaration} (listed : (schema.listing [])[id]? = some place) :
    model.Shows id place := by
  obtain ⟨checked, same, follows⟩ := root_stands made
  have reaches : model.Reaches [] (.ofCommand 0 none schema) := same ▸ .root
  have shown := shows_listing made schema checked reaches follows id place listed
  rwa [Nat.zero_add] at shown

/-- A model has as many nodes as its schema has size. -/
theorem size_eq (made : ofSchema schema = .ok model) : model.size = schema.size := by
  obtain ⟨_, same⟩ := ofSchema_eq_ok made
  have length := Node.length_below 0 schema
  rw [same, size, nodes, List.length_cons]
  exact length

/-- A node below the root is not the first. -/
theorem id_ne_zero_iff (made : ofSchema schema = .ok model) {node : Node}
    (member : node ∈ model.nodes) : node.id ≠ 0 ↔ node ∈ model.others := by
  have known := node?_id made member
  constructor
  · intro later
    obtain ⟨place, next⟩ := Nat.exists_eq_succ_of_ne_zero later
    rw [next] at known
    exact List.mem_of_getElem? known
  · intro below first
    rw [first] at known
    have root : model.node? 0 = some model.root := rfl
    rw [root] at known
    have parent := parent_of_mem_others made below
    rw [← Option.some.inj known, (root_of_ofSchema made).1] at parent
    cases parent

/-- A schema without fault has a model, whose nodes are its tree in pre-order. -/
theorem ofSchema_represents (valid : schema.faults = []) :
    ∃ model, ofSchema schema = .ok model ∧ model.Represents schema := by
  obtain ⟨model, made⟩ := exists_model valid
  have places : (schema.listing []).length = model.size := by
    rw [size_eq made, Command.length_listing]
  refine ⟨model, made, ?_⟩
  constructor
  case size => exact size_eq made
  case numbered =>
    intro id node found
    exact (stands_of_node? made found).id
  case rooted =>
    intro node member
    rw [← not_iff_not, ← ne_eq, ← ne_eq, id_ne_zero_iff made member, ← Option.isSome_iff_ne_none]
    exact ⟨mem_others_of_parent made member, parent_of_mem_others made⟩
  case parented =>
    intro node member later
    exact parent_of_others made ((id_ne_zero_iff made member).1 later)
  case grouped =>
    intro node member command
    exact isGroup_iff made member command
  case unfolds =>
    obtain ⟨checked, same, follows⟩ := root_stands made
    have found : model.node? 0 = some (.ofCommand 0 none schema) := congrArg some same
    rw [same]
    exact unfold_command schema checked found follows (Nat.le_of_eq (size_eq made).symm)
  case places => exact places
  case stands =>
    intro id path declaration listed
    exact (shows_of_listing made listed).declaration
  case climbs =>
    intro id path declaration listed
    have path := (shows_of_listing made listed).path
    have inside : id < model.size := places ▸ (List.getElem?_eq_some_iff.1 listed).1
    have found : model.node? id = some model.nodes[id] := List.getElem?_eq_getElem inside
    have climbs := climbs_of_reaches made (reaches_fieldPath made (List.getElem_mem inside))
    rw [(stands_of_node? made found).id, path] at climbs
    exact ⟨climbs, path⟩
  case decodes =>
    intro path param value member declared
    obtain ⟨id, listed⟩ := List.mem_iff_getElem?.1 member
    exact (shows_of_listing made listed).decodes param value rfl declared

/-- A group of two subcommands, one with an argument and a port that is written out as text. -/
def harbour : Command :=
  { name := "harbour"
    params := [.switch ["-q", "--quiet"]]
    subcommands := [
      { name := "dock"
        params := [.argument "ship", { Param.option ["--port"] with
          kind := .integer, default := some (.string "5432") }] },
      { name := "leave", multiple := true }] }

/-- The six nodes of the group are its tree, and the text of the port has been read. -/
theorem harbour_represents : ∃ model, ofSchema harbour = .ok model ∧ model.Represents harbour ∧
    model.size = 6 ∧ model.fieldPath 4 = ["dock", "port"] ∧
    ∃ port, model.declaration? 4 = some (.param port) ∧
      port.default.bind Value.integer? = some 5432 := by
  have valid : harbour.faults = [] := by decide +kernel
  obtain ⟨model, made, represents⟩ := ofSchema_represents valid
  cases made
  exact ⟨_, rfl, represents, rfl, rfl, _, rfl, by decide +kernel⟩

end Model

end CommandGrammar
