import Mathlib
import CommandGrammar.Proofs.Model.Unfolding

/-!
# The parameters of a schema

The nodes of a model stand for the places of the command tree one by one, so the parameters of the
model are those of the tree in pre-order. Each node decodes texts as its parameter says, and is
reached by the names that lead to the parameter.
-/

namespace CommandGrammar

/-- Its occurrences make a sequence instead of one value. -/
def Param.collects (param : Param) : Bool := param.multiple || param.arity != .exactly 1

/-- The parameter at a place of a tree, with the names that lead to it. -/
def Declaration.parameter? : List String × Declaration → Option (List String × Param)
  | (path, .param leaf) => some (path, leaf)
  | (_, .command _) => none

/-- The parameters of a tree in pre-order, each with the names that lead to it. -/
def Command.parameters (command : Command) : List (List String × Param) :=
  (command.listing []).filterMap Declaration.parameter?

namespace Model

variable {schema : Command} {model : Model} {node : Node} {param : Param} {path : List String}
  {place : List String × Declaration}

/-- A dotted path and a node belong to a parameter. -/
structure Presents (model : Model) (place : List String × Param) (entry : String × Node) :
    Prop where
  /-- The dotted path joins the names that lead to the parameter. -/
  path : entry.1 = Text.join "." place.1
  /-- The names lead to the node. -/
  reaches : model.Reaches place.1 entry.2
  /-- The node is that of a parameter. -/
  param : entry.2.isParam = true
  /-- Both collect their values, or neither. -/
  collects : entry.2.collects = place.2.collects
  /-- They have the same decoder. -/
  decoder : entry.2.decoder = place.2.decoder

/-- A node that describes what the model keeps of a parameter collects and decodes as this one. -/
theorem decodes_as_param (described : node.param? = some param.recorded) :
    node.collects = param.collects ∧ node.decoder = param.decoder := by
  rw [Node.param?] at described
  cases kind : node.kind with
  | command | group =>
    rw [kind] at described
    cases described
  | flag | positional =>
    rw [kind] at described
    have same := Option.some.inj described
    have arity : node.arity = param.arity := congrArg Param.arity same
    have multiple : node.multiple = param.multiple := congrArg Param.multiple same
    have decoder : node.decoder = param.decoder := congrArg Param.decoder same
    exact ⟨by rw [Node.collects, Param.collects, arity, multiple], decoder⟩

/-- Where a node stands for a place, the node is a parameter's exactly if the place has a parameter,
and describes it then. -/
theorem Shows.parameter (shows_place : model.Shows node.id place)
    (known : model.node? node.id = some node) :
    (∃ tree, place.2 = .command tree ∧ node.isParam = false) ∨
      ∃ param, place.2 = .param param ∧ node.isParam = true ∧
        node.param? = some param.recorded := by
  have stands := shows_place.declaration
  rw [declaration?, known, Option.bind_some] at stands
  cases kind : node.isParam with
  | false =>
    rw [kind, if_neg Bool.false_ne_true] at stands
    obtain ⟨_, _, same⟩ := Option.map_eq_some_iff.1 stands
    cases declaration : place.2 with
    | command tree => exact .inl ⟨tree, rfl, rfl⟩
    | param leaf =>
      rw [declaration, Declaration.recorded] at same
      cases same
  | true =>
    rw [kind, if_pos rfl] at stands
    obtain ⟨kept, described, same⟩ := Option.map_eq_some_iff.1 stands
    cases declaration : place.2 with
    | command tree =>
      rw [declaration, Declaration.recorded] at same
      cases same
    | param leaf =>
      rw [declaration, Declaration.recorded] at same
      cases same
      exact .inr ⟨leaf, rfl, rfl, described⟩

/-- The nodes stand for the places of the tree, one by one. -/
theorem nodes_show (made : ofSchema schema = .ok model) :
    List.Forall₂ (fun place node => model.Shows node.id place ∧ model.node? node.id = some node)
      (schema.listing []) model.nodes := by
  have length : (schema.listing []).length = model.nodes.length := by
    rw [Command.length_listing, ← size_eq made, size]
  refine List.forall₂_iff_get.2 ⟨length, fun id inside inside' => ?_⟩
  have found : model.node? id = some model.nodes[id] := List.getElem?_eq_getElem inside'
  have shows_place := shows_of_listing made (List.getElem?_eq_getElem inside)
  rw [List.get_eq_getElem, List.get_eq_getElem, (stands_of_node? made found).id]
  exact ⟨shows_place, found⟩

/-- The dotted paths of a model, with their nodes, belong to the parameters of the tree. -/
theorem fieldPaths_present (made : ofSchema schema = .ok model) :
    List.Forall₂ model.Presents schema.parameters model.fieldPaths := by
  rw [Command.parameters, fieldPaths, ← List.filterMap_eq_map, List.filterMap_filter]
  refine List.rel_filterMap (fun place node stands => ?_) (nodes_show made)
  obtain ⟨path, declaration⟩ := place
  obtain ⟨shows_place, known⟩ := stands
  have reaches := reaches_fieldPath made (List.mem_of_getElem? known)
  rw [shows_place.path] at reaches
  rcases shows_place.parameter known with ⟨tree, rfl, kind⟩ | ⟨param, rfl, kind, described⟩
  · rw [if_neg (Bool.eq_false_iff.1 kind)]
    exact .none
  · obtain ⟨collects, decoder⟩ := decodes_as_param described
    rw [if_pos kind]
    exact .some ⟨congrArg _ shows_place.path, reaches, kind, collects, decoder⟩

/-- A parameter of the tree has a dotted path and a node. -/
theorem exists_presents (made : ofSchema schema = .ok model) {place : List String × Param}
    (declared : place ∈ schema.parameters) : ∃ entry, model.Presents place entry := by
  obtain ⟨number, listed⟩ := List.mem_iff_getElem?.1 declared
  obtain ⟨entry, _, presents⟩ := exists_related_at (fieldPaths_present made) listed
  exact ⟨entry, presents⟩

/-- The names that lead to the node of a command lead to a command of the tree. -/
theorem exists_command_of_reaches (made : ofSchema schema = .ok model)
    (reaches : model.Reaches path node) (command : node.isCommand = true) :
    ∃ tree, (path, .command tree) ∈ schema.listing [] := by
  have known := reaches.known made
  obtain ⟨place, listed, shows_place, _⟩ := exists_related_at (nodes_show made).flip known
  rw [Node.isCommand, Bool.not_eq_true'] at command
  rcases shows_place.parameter known with ⟨tree, same, _⟩ | ⟨_, _, kind, _⟩
  · have names : place.1 = path := shows_place.path.symm.trans (fieldPath_of_reaches made reaches)
    refine ⟨tree, ?_⟩
    rw [← names, ← same]
    exact List.mem_of_getElem? listed
  · rw [command] at kind
    cases kind

end Model

end CommandGrammar
