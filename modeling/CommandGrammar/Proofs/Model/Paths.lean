import Mathlib
import CommandGrammar.Proofs.Model.Origins

/-!
# Paths in a model

Names lead from the root down to a node, each being the name of something that the node before it
declares. Every node is reached by one such path, which is its field path. A path reaches one
node only, and none goes on below a parameter.
-/

namespace CommandGrammar

namespace Node

mutual

/-- What stands below a command is declared by it, or by something below it. -/
theorem declared_below (id : NodeId) (command : Command) : ∀ node ∈ below id command,
    (node.parent = some id ∧ node.id ∈ List.range' (id + 1) command.params.length ++
      rootIds (id + 1 + command.params.length) command.subcommands) ∨
      ∃ outer ∈ below id command, node.parent = some outer.id ∧ node.id ∈ outer.declared := by
  cases command with
  | mk name description params subcommands required arity multiple =>
    intro node member
    rw [below] at member ⊢
    rcases List.mem_append.1 member with own | later
    · obtain ⟨place, inside, rfl⟩ := List.mem_mapIdx.1 own
      have number : id + 1 + place ∈ List.range' (id + 1) params.length := by
        rw [List.mem_range'_1]
        omega
      exact .inl ⟨rfl, List.mem_append_left _ number⟩
    · rcases declared_belowAll _ id subcommands node later with own | ⟨outer, inside, declared⟩
      · exact .inl ⟨own.1, List.mem_append_right _ own.2⟩
      · exact .inr ⟨outer, List.mem_append_right _ inside, declared⟩

/-- Commands under a parent and what stands below them are declared by the parent, or by one of
them or something below it. -/
theorem declared_belowAll (next parent : NodeId) (commands : List Command) :
    ∀ node ∈ belowAll next parent commands,
      (node.parent = some parent ∧ node.id ∈ rootIds next commands) ∨
        ∃ outer ∈ belowAll next parent commands,
          node.parent = some outer.id ∧ node.id ∈ outer.declared := by
  cases commands with
  | nil => simp [belowAll]
  | cons command rest =>
    intro node member
    rw [belowAll] at member ⊢
    rcases List.mem_append.1 member with head | tail
    · rcases List.mem_cons.1 head with rfl | below
      · exact .inl ⟨rfl, List.mem_cons_self⟩
      · rcases declared_below next command node below with own | ⟨outer, inside, declared⟩
        · refine .inr ⟨ofCommand next (some parent) command, List.mem_cons_self, own.1, ?_⟩
          rw [declared_ofCommand]
          exact own.2
        · exact .inr ⟨outer, List.mem_append_left _ (List.mem_cons_of_mem _ inside), declared⟩
    · rcases declared_belowAll _ parent rest node tail with own | ⟨outer, inside, declared⟩
      · exact .inl ⟨own.1, List.mem_cons_of_mem _ own.2⟩
      · exact .inr ⟨outer, List.mem_append_right _ inside, declared⟩

end

end Node

namespace Model

/-- Names that lead from the root to a node. -/
inductive Reaches (model : Model) : List String → Node → Prop where
  /-- No name leads to the root. -/
  | root : Reaches model [] model.root
  /-- The name of what a node declares leads on from the node. -/
  | declared {path : List String} {outer node : Node} (above : Reaches model path outer)
      (member : node ∈ model.nodesOf outer.declared) : Reaches model (path ++ [node.name]) node

variable {schema : Command} {model : Model} {node other : Node} {path longer : List String}

/-- A reached node is one of the model. -/
theorem Reaches.known (made : ofSchema schema = .ok model) (reaches : model.Reaches path node) :
    model.node? node.id = some node := by
  cases reaches with
  | root => exact node?_id made List.mem_cons_self
  | declared _ member => exact (node?_of_declared made member).1

/-- A node below the root is declared by its parent. -/
theorem exists_declaring (made : ofSchema schema = .ok model) (member : node ∈ model.others) :
    ∃ outer ∈ model.nodes, node ∈ model.nodesOf outer.declared := by
  have known := node?_id made (List.mem_cons_of_mem _ member)
  obtain ⟨_, rfl⟩ := ofSchema_eq_ok made
  rcases Node.declared_below 0 schema node member with own | ⟨outer, inside, declared⟩
  · refine ⟨_, List.mem_cons_self, List.mem_filterMap.2 ⟨node.id, ?_, known⟩⟩
    rw [Node.declared_ofCommand]
    exact own.2
  · exact ⟨outer, List.mem_cons_of_mem _ inside, List.mem_filterMap.2 ⟨node.id, declared.2, known⟩⟩

/-- What a node declares has a greater number. -/
theorem id_lt_of_declared (made : ofSchema schema = .ok model) {outer : Node}
    (known : model.node? outer.id = some outer) (member : node ∈ model.nodesOf outer.declared) :
    outer.id < node.id :=
  (stands_of_node? made known).later node.id (node?_of_declared made member).2

/-- Every node is reached. -/
theorem exists_reaches (made : ofSchema schema = .ok model) (node : Node)
    (member : node ∈ model.nodes) : ∃ path, model.Reaches path node := by
  rcases List.mem_cons.1 member with rfl | below
  · exact ⟨[], .root⟩
  · obtain ⟨outer, listed, declared⟩ := exists_declaring made below
    have earlier := id_lt_of_declared made (node?_id made listed) declared
    obtain ⟨path, above⟩ := exists_reaches made outer listed
    exact ⟨_, .declared above declared⟩
termination_by node.id

/-- The names of the way up from a reached node are those that lead to it. -/
theorem pathUpTo_of_reaches (made : ofSchema schema = .ok model)
    (reaches : model.Reaches path node) {fuel : Nat} (enough : node.id < fuel)
    (below : List String) : model.pathUpTo fuel node.id below = path ++ below := by
  induction reaches generalizing fuel below with
  | root =>
    cases fuel with
    | zero => exact absurd enough (Nat.not_lt_zero _)
    | succ fuel =>
      rw [pathUpTo, node?_id made List.mem_cons_self]
      simp only [(root_of_ofSchema made).1]
      rfl
  | @declared path outer node above member ih =>
    have known := above.known made
    have earlier := id_lt_of_declared made known member
    cases fuel with
    | zero => exact absurd enough (Nat.not_lt_zero _)
    | succ fuel =>
      rw [pathUpTo, (node?_of_declared made member).1]
      simp only [parent_of_declared made known member]
      have higher : outer.id < fuel := Nat.lt_of_lt_of_le earlier (Nat.le_of_lt_succ enough)
      rw [ih higher, List.append_assoc, List.singleton_append]

/-- The field path of a node is the path that reaches it. -/
theorem fieldPath_of_reaches (made : ofSchema schema = .ok model)
    (reaches : model.Reaches path node) : model.fieldPath node.id = path := by
  have inside : node.id < model.size := (List.getElem?_eq_some_iff.1 (reaches.known made)).1
  rw [fieldPath, pathUpTo_of_reaches made reaches inside, List.append_nil]

/-- Every node is reached by its field path. -/
theorem reaches_fieldPath (made : ofSchema schema = .ok model) (member : node ∈ model.nodes) :
    model.Reaches (model.fieldPath node.id) node := by
  obtain ⟨path, reaches⟩ := exists_reaches made node member
  rw [fieldPath_of_reaches made reaches]
  exact reaches

/-- A path reaches one node only. -/
theorem Reaches.unique (made : ofSchema schema = .ok model) (first : model.Reaches path node)
    (second : model.Reaches path other) : node = other := by
  induction first generalizing other with
  | root =>
    generalize same : ([] : List String) = path at second
    cases second with
    | root => rfl
    | declared => simp at same
  | @declared path outer node above member ih =>
    generalize same : path ++ [node.name] = whole at second
    cases second with
    | root => simp at same
    | @declared path' outer' _ above' member' =>
      obtain ⟨rfl, last⟩ := List.append_inj' same rfl
      obtain rfl := ih above'
      have names := names_nodup made (above.known made)
      exact List.inj_on_of_nodup_map names member member' (List.cons.inj last).1

/-- No path goes on below a parameter. -/
theorem Reaches.eq_of_prefix (made : ofSchema schema = .ok model)
    (first : model.Reaches path node) (param : node.isParam = true)
    (second : model.Reaches longer other) (before : path <+: longer) : node = other := by
  induction second with
  | root =>
    rw [List.prefix_nil.1 before] at first
    exact first.unique made .root
  | @declared longer outer other above member ih =>
    rcases List.prefix_concat_iff.1 before with rfl | shorter
    · exact first.unique made (.declared above member)
    · -- The declaring node would be the parameter, which declares nothing.
      obtain rfl := ih shorter
      have nothing : node.declared = [] := by
        cases kind : node.kind with
        | flag | positional => simp [Node.declared, Node.params, Node.subcommands, kind]
        | command | group => simp [Node.isParam, kind] at param
      rw [nothing] at member
      cases member

/-- The path of a node below the root has a name. -/
theorem Reaches.ne_nil (made : ofSchema schema = .ok model) (reaches : model.Reaches path node)
    (param : node.isParam = true) : path ≠ [] := by
  rintro rfl
  obtain rfl := reaches.unique made .root
  rw [(root_of_ofSchema made).2] at param
  cases param

end Model

end CommandGrammar
