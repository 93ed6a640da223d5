import Mathlib
import CommandGrammar.Proofs.Resolved.Kept

/-!
# Every occurrence has a declaration

A parse tree fits the model at every branch, so that resolving it finds a node for each of its
branches, and a text for each parameter that takes one. The occurrences under a command are those
of its branches, in order; each is an occurrence of something that the command declares, and of
nothing that another command does.
-/

namespace CommandGrammar

/-- The occurrences under an invocation of a command, which has the children, are all accounted for
by what the command declares. -/
structure Model.Accounts (model : Model) (defaults : Defaults) (command : Node)
    (children : List Tree) (found : Occurrences) : Prop where
  /-- Each of them is one of a declaration of the command. -/
  declared : ∀ occurrence ∈ found, occurrence.1 ∈ command.declared
  /-- A declaration has as many as it has branches. -/
  counted : ∀ node ∈ model.nodesOf command.declared,
    (found.filter (·.1 == node.id)).length = (branchRules children).count node.id
  /-- Those of a declaration that has some are gathered into the field under its name. -/
  gathered : ∀ node ∈ model.nodesOf command.declared, found.filter (·.1 == node.id) ≠ [] →
    ∃ field, (model.invocation defaults command found).field? node.name = some field ∧
      node.Gathers ((found.filter (·.1 == node.id)).map Prod.snd) field
  /-- What another command declares has no branches, and no occurrences. -/
  apart : ∀ other, model.node? other.id = some other → other.id ≠ command.id →
    ∀ twin ∈ model.nodesOf other.declared,
      (branchRules children).count twin.id = 0 ∧ found.filter (·.1 == twin.id) = []

/-- A fault that names a text in a tree, and the parameter that cannot decode it. -/
def Model.FaultIn (model : Model) (tree : Tree) (fault : ResolveFault) : Prop :=
  ∃ node own raw reason, tree.StandsIn (.branch node.id own) ∧
    model.node? node.id = some node ∧ firstValue? own = some raw ∧
    node.decode raw = .error reason ∧ fault = .undecodable ⟨node.id, node.name, raw, reason⟩

namespace Model

variable {schema : Command} {model : Model} {mode : RequiredParams} {defaults : Defaults}
  {node command : Node} {trees children : List Tree} {found : Occurrences}

/-! ## Branches -/

/-- The rules of the branches among trees are those that the branches name. -/
theorem mem_branchRules_iff {id : NodeId} :
    id ∈ branchRules trees ↔ ∃ children, .branch id children ∈ trees := by
  fun_induction branchRules trees with
  | case1 => simp
  | case2 leaf rest ih => simp [ih]
  | case3 rule own rest ih =>
    rw [List.mem_cons, ih]
    constructor
    · intro either
      rcases either with rfl | ⟨children, member⟩
      · exact ⟨own, List.mem_cons_self⟩
      · exact ⟨children, List.mem_cons_of_mem _ member⟩
    · intro branch
      obtain ⟨children, member⟩ := branch
      rcases List.mem_cons.1 member with same | later
      · cases same
        exact .inl rfl
      · exact .inr ⟨children, later⟩

/-- What fits a node has branches of what the node declares. -/
theorem mem_declared_of_fits (fits : node.Fits children) {id : NodeId}
    (member : id ∈ branchRules children) : id ∈ node.declared := by
  obtain ⟨own, member⟩ := mem_branchRules_iff.1 member
  cases fits with
  | switch | spaced | joined | positional => simp at member
  | command _ each =>
    have branch := (List.mem_cons.1 member).resolve_left fun same => by cases same
    obtain ⟨_, declared, _, same⟩ := each _ branch
    cases same
    exact declared

/-- What fits a parameter that takes a value has a value leaf. -/
theorem exists_firstValue? (fits : node.Fits children)
    (takes : node.kind = .positional ∨ ∃ triggers, node.kind = .flag triggers true) :
    ∃ raw, firstValue? children = some raw := by
  cases fits with
  | switch kind => simp [kind] at takes
  | spaced | joined | positional => exact ⟨_, rfl⟩
  | command command =>
    have no_param : node.isParam = false := by simpa [Node.isCommand] using command
    obtain kind | ⟨triggers, kind⟩ := takes
    · simp [Node.isParam, kind] at no_param
    · simp [Node.isParam, kind] at no_param

/-! ## Occurrences -/

/-- A branch stands for one occurrence, which has its rule. -/
theorem exists_field_of_occurrence {rule : NodeId}
    (occurs : model.occurrence defaults (.branch rule children) = .ok found) :
    ∃ field, found = [(rule, field)] := by
  rw [occurrence] at occurs
  split at occurs
  · cases occurs
  · split at occurs
    · cases occurs
      exact ⟨_, rfl⟩
    all_goals
      obtain ⟨_, _, done⟩ := bind_eq_ok_iff.1 occurs
      cases done
      exact ⟨_, rfl⟩

/-- The occurrences of trees are those of their branches, in order. -/
theorem rules_occurrences (occurs : model.occurrences defaults trees = .ok found) :
    found.map Prod.fst = branchRules trees := by
  induction trees generalizing found with
  | nil =>
    cases occurs
    rfl
  | cons tree rest ih =>
    rw [occurrences] at occurs
    obtain ⟨first, head, occurs⟩ := bind_eq_ok_iff.1 occurs
    obtain ⟨others, tail, done⟩ := bind_eq_ok_iff.1 occurs
    cases done
    rw [List.map_append, ih tail]
    cases tree with
    | leaf leaf =>
      cases head
      rfl
    | branch rule children =>
      obtain ⟨field, rfl⟩ := exists_field_of_occurrence head
      rfl

/-- Under a command that its children fit, all occurrences are accounted for. -/
theorem accounts_of_occurrences (made : ofSchema schema = .ok model)
    (known : model.node? command.id = some command) (fits : command.Fits children)
    (admitted : ∀ child ∈ children, (model.readGrammar mode).Admits child)
    (occurs : model.occurrences defaults children = .ok found) :
    model.Accounts defaults command children found := by
  have rules := rules_occurrences occurs
  constructor
  · intro occurrence member
    have named : occurrence.1 ∈ branchRules children := rules ▸ List.mem_map_of_mem member
    exact mem_declared_of_fits fits named
  · intro node declared
    rw [← rules, List.count, List.countP_map, List.countP_eq_length_filter]
    rfl
  · intro node declared occurs_here
    have present := (node?_of_declared made declared).1
    have each := standsFor_of_occurrences made present admitted occurs
    have some_field : (found.filter (·.1 == node.id)).map Prod.snd ≠ [] := by
      simpa using occurs_here
    obtain ⟨field, gathered, gathers⟩ := exists_gathers each some_field
    refine ⟨field, ?_, gathers⟩
    rw [field?_invocation (names_nodup made known) declared, fieldOf?, gathered, Option.some_or]
  · intro other other_known differs twin declared
    have absent : twin.id ∉ branchRules children := by
      intro named
      have present := (node?_of_declared made declared).1
      have own : twin ∈ model.nodesOf command.declared :=
        List.mem_filterMap.2 ⟨twin.id, mem_declared_of_fits fits named, present⟩
      have parent := parent_of_declared made known own
      rw [parent_of_declared made other_known declared] at parent
      exact differs (Option.some.inj parent)
    refine ⟨List.count_eq_zero.2 absent, List.filter_eq_nil_iff.2 fun occurrence member => ?_⟩
    have named : occurrence.1 ∈ branchRules children := rules ▸ List.mem_map_of_mem member
    intro same
    exact absent (beq_iff_eq.1 same ▸ named)

/-! ## Faults -/

/-- A fault in a tree is one in the trees around it. -/
theorem FaultIn.of_standsIn {outer inner : Tree} {fault : ResolveFault}
    (inside : model.FaultIn inner fault) (stands : outer.StandsIn inner) :
    model.FaultIn outer fault := by
  obtain ⟨node, own, raw, reason, place, rest⟩ := inside
  exact ⟨node, own, raw, reason, place.trans stands, rest⟩

/-- Resolving a branch of a parameter that takes a value fails only on its text. -/
theorem faultIn_of_paramField (present : model.node? node.id = some node)
    (fits : node.Fits children)
    (takes : node.kind = .positional ∨ ∃ triggers, node.kind = .flag triggers true)
    {fault : ResolveFault} (failed : (do return [(node.id, ← paramField node children)] :
      Except ResolveFault Occurrences) = .error fault) :
    model.FaultIn (.branch node.id children) fault := by
  obtain ⟨raw, text⟩ := exists_firstValue? fits takes
  rcases bind_eq_error_iff.1 failed with failed | ⟨_, _, done⟩
  · simp only [paramField, text, Option.getD_some] at failed
    cases decoded : node.decode raw with
    | ok value =>
      rw [decoded] at failed
      cases failed
    | error reason =>
      rw [decoded] at failed
      cases failed
      exact ⟨node, children, raw, reason, .self, present, text, decoded, rfl⟩
  · cases done

mutual

/-- Resolving a branch of a parse tree fails only on a text in it. -/
theorem faultIn_of_occurrence (made : ofSchema schema = .ok model) (tree : Tree)
    (admitted : (model.readGrammar mode).Admits tree) {fault : ResolveFault}
    (failed : model.occurrence defaults tree = .error fault) : model.FaultIn tree fault := by
  cases tree with
  | leaf leaf =>
    rw [occurrence] at failed
    cases failed
  | branch rule children =>
    obtain ⟨node, present, fits, inside⟩ := fits_of_admits made admitted
    obtain rfl := (stands_of_node? made present).id
    rw [occurrence, present] at failed
    simp only at failed
    cases kind : node.kind with
    | flag triggers takesValue =>
      cases takesValue with
      | false => simp [kind] at failed
      | true =>
        simp only [kind] at failed
        exact faultIn_of_paramField present fits (.inr ⟨triggers, kind⟩) failed
    | positional =>
      simp only [kind] at failed
      exact faultIn_of_paramField present fits (.inl kind) failed
    | command | group =>
      simp only [kind] at failed
      rcases bind_eq_error_iff.1 failed with failed | ⟨_, _, done⟩
      · obtain ⟨child, member, fault_in⟩ := faultIn_of_occurrences made children inside failed
        exact fault_in.of_standsIn (.child .self member)
      · cases done

/-- Resolving branches of parse trees fails only on a text in one of them. -/
theorem faultIn_of_occurrences (made : ofSchema schema = .ok model) (trees : List Tree)
    (admitted : ∀ tree ∈ trees, (model.readGrammar mode).Admits tree) {fault : ResolveFault}
    (failed : model.occurrences defaults trees = .error fault) :
    ∃ tree ∈ trees, model.FaultIn tree fault := by
  cases trees with
  | nil =>
    rw [occurrences] at failed
    cases failed
  | cons tree rest =>
    rw [occurrences] at failed
    obtain ⟨own, others⟩ := List.forall_mem_cons.1 admitted
    rcases bind_eq_error_iff.1 failed with failed | ⟨_, _, later⟩
    · exact ⟨tree, List.mem_cons_self, faultIn_of_occurrence made tree own failed⟩
    · rcases bind_eq_error_iff.1 later with failed | ⟨_, _, done⟩
      · obtain ⟨other, member, fault_in⟩ := faultIn_of_occurrences made rest others failed
        exact ⟨other, List.mem_cons_of_mem _ member, fault_in⟩
      · cases done

end

/-! ## Parses -/

/-- The tree of a parsed line fits the model everywhere: its root is the root of the model, the
rule of each branch is the number of a node, whose declarations are all nodes, the children are
what the node may have, and a parameter that takes a value has one. So resolving a parse fails only
on a text that is there. All occurrences under a command are accounted for by what it
declares, and what another command declares has none. -/
theorem parse_fits_model (made : ofSchema schema = .ok model) {line : String} {parse : Parse}
    (parsed : (Table.ofGrammar (model.grammar mode)).parse line = .ok parse) :
    parse.rule = model.root.id ∧
    (∀ rule children, parse.root.StandsIn (.branch rule children) →
      ∃ node, model.node? rule = some node ∧ node.id = rule ∧ node.Fits children ∧
        (model.nodesOf node.declared).map Node.id = node.declared ∧
        ((node.kind = .positional ∨ ∃ triggers, node.kind = .flag triggers true) →
          ∃ raw, firstValue? children = some raw) ∧
        ∀ defaults found, model.occurrences defaults children = .ok found →
          model.Accounts defaults node children found) ∧
    ∀ defaults fault, model.resolve defaults parse = .error fault →
      model.FaultIn parse.root fault := by
  obtain ⟨start, admitted⟩ := admits_of_parse made parsed
  refine ⟨start, fun rule children stands => ?_, fun defaults fault failed => ?_⟩
  · have here := admits_of_standsIn made admitted stands
    obtain ⟨node, present, fits, inside⟩ := fits_of_admits made here
    obtain rfl := (stands_of_node? made present).id
    refine ⟨node, present, rfl, fits, ids_nodesOf made (stands_of_node? made present).known,
      exists_firstValue? fits, fun defaults found occurs => ?_⟩
    exact accounts_of_occurrences made present fits inside occurs
  · obtain ⟨node, present, _, inside⟩ := fits_of_admits made admitted
    rw [resolve, present] at failed
    rcases bind_eq_error_iff.1 failed with failed | ⟨_, _, done⟩
    · obtain ⟨child, member, fault_in⟩ := faultIn_of_occurrences made parse.children inside failed
      exact fault_in.of_standsIn (.child .self member)
    · cases done

/-- Both names on this line are the dog's, and none is the group's, which has that name too. -/
theorem kennel_accounts : ∃ model parse children found, ofSchema kennel = .ok model ∧
    (Table.ofGrammar (model.grammar .deferred)).parse "top dog --name a --name=cat cat" =
      .ok parse ∧ parse.root.StandsIn (.branch 2 children) ∧
    model.occurrences .omitted children = .ok found ∧
    (found.filter (·.1 == 3)).length = 2 ∧ found.filter (·.1 == 1) = [] := by
  let model : Model := ⟨.ofCommand 0 none kennel, Node.below 0 kennel⟩
  let table := Table.ofGrammar (model.grammar .deferred)
  have made : ofSchema kennel = .ok model := rfl
  have facts : (table.parse "top dog --name a --name=cat cat").toOption.map (fun parse =>
      (branchesOf 2 parse.children).map fun own =>
        (branchRules own, (model.occurrences .omitted own).toOption.isSome)) =
      some [([3, 3], true)] := by
    decide +kernel
  cases parsed : table.parse "top dog --name a --name=cat cat" with
  | error fault =>
    rw [parsed] at facts
    cases facts
  | ok parse =>
    rw [parsed] at facts
    obtain ⟨children, only, evaluated⟩ := List.map_eq_singleton_iff.1 (Option.some.inj facts)
    obtain ⟨twice, resolvable⟩ := Prod.mk.inj evaluated
    have member : Tree.branch 2 children ∈ parse.children :=
      mem_branchesOf.1 (only ▸ List.mem_singleton_self children)
    have stands : parse.root.StandsIn (.branch 2 children) := .child .self member
    cases occurs : model.occurrences .omitted children with
    | error fault =>
      rw [occurs] at resolvable
      cases resolvable
    | ok found =>
      obtain ⟨node, present, _, _, _, _, accounted⟩ :=
        (parse_fits_model made parsed).2.1 2 children stands
      cases present
      have accounts := accounted .omitted found occurs
      let name : Param := { Param.option ["--name"] with multiple := true }
      have dogs := accounts.counted (.ofParam 3 2 name) (.head _)
      have tops := accounts.apart model.root rfl (by decide) (.ofParam 1 0 name) (.head _)
      refine ⟨model, parse, children, found, made, parsed, stands, occurs, ?_, tops.2⟩
      rw [twice] at dogs
      exact dogs

end Model

end CommandGrammar
