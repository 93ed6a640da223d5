import Mathlib
import CommandGrammar.Proofs.Policy.Commands

/-!
# Branches of parse trees

What stands under a branch of a parse tree is told by the node of its rule: a parameter has
leaves only, its trigger and its value, and a command has its name and then branches of
what it declares.
-/

namespace CommandGrammar

/-- What a branch of the node may have as its children. -/
inductive Node.Fits (node : Node) : List Tree → Prop where
  /-- A switch has one of its triggers. -/
  | switch {triggers : List String} {trigger : String} {place : Nat}
      (kind : node.kind = .flag triggers false) (known : trigger ∈ triggers) :
      Fits node [.leaf ⟨.literal, trigger, place⟩]
  /-- An option has one of its triggers and a value. -/
  | spaced {triggers : List String} {trigger text : String} {place last : Nat}
      (kind : node.kind = .flag triggers true) (known : trigger ∈ triggers) :
      Fits node [.leaf ⟨.literal, trigger, place⟩, .leaf ⟨.value, text, last⟩]
  /-- An equals sign may stand between them. -/
  | joined {triggers : List String} {trigger text : String} {place sign last : Nat}
      (kind : node.kind = .flag triggers true) (known : trigger ∈ triggers) :
      Fits node [.leaf ⟨.literal, trigger, place⟩, .leaf ⟨.literal, "=", sign⟩,
        .leaf ⟨.value, text, last⟩]
  /-- A positional argument has a value. -/
  | positional {text : String} {place : Nat} (kind : node.kind = .positional) :
      Fits node [.leaf ⟨.value, text, place⟩]
  /-- A command has its name and branches of what it declares. -/
  | command {place : Nat} {branches : List Tree} (command : node.isCommand = true)
      (each : ∀ tree ∈ branches, ∃ id ∈ node.declared, ∃ children, tree = .branch id children) :
      Fits node (.leaf ⟨.literal, node.name, place⟩ :: branches)

/-- A tree stands in another one: it is that tree or it is a child of a branch in it. -/
inductive Tree.StandsIn (root : Tree) : Tree → Prop where
  /-- The tree itself. -/
  | self : StandsIn root root
  /-- A child of a branch that stands in it. -/
  | child {rule : NodeId} {children : List Tree} {tree : Tree}
      (outer : StandsIn root (.branch rule children)) (member : tree ∈ children) :
      StandsIn root tree

/-- What stands in a tree that stands in another one stands in that one. -/
theorem Tree.StandsIn.trans {root middle tree : Tree} (inner : middle.StandsIn tree)
    (outer : root.StandsIn middle) : root.StandsIn tree := by
  induction inner with
  | self => exact outer
  | child _ member ih => exact .child ih member

/-- The leaves of a tree among others are among theirs. -/
theorem leaves_subset_leavesOf {tree : Tree} {trees : List Tree} (member : tree ∈ trees) :
    tree.leaves ⊆ leavesOf trees := by
  induction trees with
  | nil => cases member
  | cons first rest ih =>
    rw [leavesOf]
    rcases List.mem_cons.1 member with rfl | later
    · exact List.subset_append_left _ _
    · exact List.subset_append_of_subset_right _ (ih later)

/-- The leaves of a tree that stands in another one are among its leaves. -/
theorem Tree.StandsIn.leaves_subset {root tree : Tree} (stands : root.StandsIn tree) :
    tree.leaves ⊆ root.leaves := by
  induction stands with
  | self => exact List.Subset.refl _
  | child _ member ih => exact List.Subset.trans (leaves_subset_leavesOf member) ih

namespace Model

variable {schema : Command} {model : Model} {mode : RequiredParams} {node : Node} {id : NodeId}
  {trees children : List Tree}

/-- What matches a switch is one of its triggers. -/
theorem fits_switch {triggers : List String} (kind : node.kind = .flag triggers false)
    (matched : (flagExpr triggers false).Matches trees) : node.Fits trees := by
  obtain ⟨item, member, chosen⟩ := matches_choice matched
  obtain ⟨trigger, known, rfl⟩ := List.mem_map.1 member
  cases chosen with
  | literal => exact .switch kind known

/-- What fits a switch is one of its triggers. -/
theorem eq_of_fits_switch {triggers : List String} (kind : node.kind = .flag triggers false)
    (fits : node.Fits children) :
    ∃ trigger ∈ triggers, ∃ place, children = [.leaf ⟨.literal, trigger, place⟩] := by
  cases fits with
  | @switch _ trigger place other known =>
    obtain ⟨rfl, _⟩ := NodeKind.flag.inj (kind.symm.trans other)
    exact ⟨trigger, known, place, rfl⟩
  | spaced other | joined other | positional other => simp [kind] at other
  | command command => simp [Node.isCommand, Node.isParam, kind] at command

/-- What matches an option is one of its triggers with a value. -/
theorem fits_option {triggers : List String} (kind : node.kind = .flag triggers true)
    (matched : (flagExpr triggers true).Matches trees) : node.Fits trees := by
  obtain ⟨trigger, known, text, place, last, rfl | ⟨sign, rfl⟩⟩ := matches_option matched
  · exact .spaced kind known
  · exact .joined kind known

/-- The items of a command are branches of what it declares. -/
theorem mem_alternatives_iff {command : Node} {id : NodeId} :
    id ∈ command.alternatives ↔ id ∈ command.declared := by
  rw [Node.alternatives, Node.declared, List.mem_append, List.mem_append, or_comm]

/-- What matches a command is its name and branches of what it declares. -/
theorem fits_command (command : node.isCommand = true)
    (matched : (model.readExpr mode node).Matches trees) : node.Fits trees := by
  rcases @readExpr_command model mode _ command with same | ⟨same, _, _⟩
  · rw [same] at matched
    cases matched with
    | seqCons head tail =>
      cases head with
      | literal =>
        cases tail with
        | seqCons items last =>
          cases last
          cases items with
          | repetition parts _ _ each =>
            refine .command command fun tree member => ?_
            rw [List.append_nil] at member
            obtain ⟨part, listed, inside⟩ := List.mem_flatten.1 member
            obtain ⟨id, known, children, rfl⟩ := matches_rules (each part listed)
            exact ⟨id, mem_alternatives_iff.1 known, children, List.mem_singleton.1 inside⟩
  · rw [same] at matched
    cases matched with
    | literal => exact .command command (by simp)

/-- What matches the expression of a node fits the node. -/
theorem fits_of_matches (matched : (model.readExpr mode node).Matches trees) : node.Fits trees := by
  by_cases command : node.isCommand = true
  · exact fits_command command matched
  unfold readExpr nodeExpr at matched
  cases kind : node.kind with
  | flag triggers takesValue =>
    rw [kind] at matched
    cases takesValue with
    | true => exact fits_option kind matched
    | false => exact fits_switch kind matched
  | positional =>
    rw [kind] at matched
    cases matched with
    | value => exact .positional kind
  | command | group => simp [Node.isCommand, Node.isParam, kind] at command

/-- The children of a branch of a parse tree fit the node of its rule, and so it goes on inside
them. -/
theorem fits_of_admits (made : ofSchema schema = .ok model)
    (admitted : (model.readGrammar mode).Admits (.branch id children)) :
    ∃ node, model.node? id = some node ∧ node.Fits children ∧
      ∀ child ∈ children, (model.readGrammar mode).Admits child := by
  cases admitted with
  | branch has matched inner =>
    obtain ⟨node, found, rfl⟩ := node?_of_read made has
    exact ⟨node, found, fits_of_matches matched, inner⟩

/-- What stands in a parse tree is one, or a leaf. -/
theorem admits_of_standsIn (made : ofSchema schema = .ok model) {root tree : Tree}
    (admitted : (model.readGrammar mode).Admits root) (stands : root.StandsIn tree) :
    (model.readGrammar mode).Admits tree := by
  induction stands with
  | self => exact admitted
  | child _ member ih =>
    obtain ⟨_, _, _, inside⟩ := fits_of_admits made ih
    exact inside _ member

/-- A parse is a derivation by the root. -/
theorem admits_of_parseTokens (made : ofSchema schema = .ok model) {input : String}
    {tokens : List String} {parse : Parse}
    (parsed : model.parseTokens mode input tokens = .ok parse) :
    parse.rule = model.root.id ∧ (model.readGrammar mode).Admits parse.root := by
  rw [parseTokens_eq] at parsed
  obtain ⟨_, rfl, admitted, _⟩ := Grammar.derivation_of_parseTokens (readGrammar_isClosed made mode)
    (readGrammar_isBounded model mode) parsed
  exact ⟨rfl, admitted⟩

/-- The parse of a line is a derivation by the root. -/
theorem admits_of_parse (made : ofSchema schema = .ok model) {line : String} {parse : Parse}
    (parsed : (Table.ofGrammar (model.grammar mode)).parse line = .ok parse) :
    parse.rule = model.root.id ∧ (model.readGrammar mode).Admits parse.root := by
  unfold Table.parse at parsed
  split at parsed
  · cases parsed
  · exact admits_of_parseTokens made parsed

end Model

end CommandGrammar
