import Mathlib
import CommandGrammar.Proofs.Resolved.Kept

/-!
# Violations

A command of a tree is reached from the root through commands, by the places of the branches on the
way. Ways in lexicographic order are the commands in pre-order: an outer command comes before those
inside it, and what is inside an earlier child before what is inside a later one. The occurrence
rules are obeyed in a tree exactly if no violation is found, and the one that is found is the first
in that order.
-/

namespace CommandGrammar

/-- The ways in which a number of occurrences breaks the rules of a declaration. -/
inductive Node.Breaks (node : Node) (observed : Nat) : Prop where
  /-- It is required and does not occur. -/
  | missing (required : node.required = true) (never : observed = 0)
  /-- It occurs, but not as often as it has to. -/
  | miscounted {count : UInt32} (arity : node.arity = .exactly count)
      (single : node.multiple = false) (occurs : observed ≠ 0)
      (differs : observed ≠ count.toNat)
  /-- It is required and does not occur as often as it has to. -/
  | unmet {count : UInt32} (arity : node.arity = .exactly count)
      (single : node.multiple = false) (required : node.required = true)
      (differs : observed ≠ count.toNat)

/-- A number of occurrences is refused exactly if it breaks a rule. -/
theorem Node.allows_eq_false_iff {node : Node} {observed : Nat} :
    node.allows observed = false ↔ node.Breaks observed := by
  constructor
  · intro refused
    rw [allows, Bool.not_eq_false', Bool.or_eq_true] at refused
    rcases refused with missing | miscounted
    · rw [Bool.and_eq_true, beq_iff_eq] at missing
      exact .missing missing.1 missing.2
    · cases arity : node.arity with
      | unbounded => simp [fixedCount?, arity] at miscounted
      | exactly count =>
        cases single : node.multiple with
        | true => simp [fixedCount?, arity, single] at miscounted
        | false =>
          simp only [fixedCount?, arity, single, Bool.false_eq_true, if_false, Bool.and_eq_true,
            bne_iff_ne, Bool.or_eq_true, decide_eq_true_eq] at miscounted
          obtain ⟨differs, required | occurs⟩ := miscounted
          · exact .unmet arity single required differs
          · exact .miscounted arity single (Nat.ne_of_gt occurs) differs
  · intro breaks
    cases breaks with
    | missing required never => simp [allows, required, never]
    | miscounted arity single occurs differs =>
      simp [allows, fixedCount?, arity, single, differs, Nat.pos_of_ne_zero occurs]
    | unmet arity single required differs =>
      simp [allows, fixedCount?, arity, single, required, differs]

namespace Model

/-- A command of a tree, by its way from the root, and the children of its branch. Nothing is looked
for inside what is no command. -/
inductive CommandAt (model : Model) : Tree → List Nat → Node → List Tree → Prop where
  /-- The root of the tree. -/
  | here {rule : NodeId} {children : List Tree} {command : Node}
      (found : model.node? rule = some command) (group : command.isCommand = true) :
      CommandAt model (.branch rule children) [] command children
  /-- A command in a child of a command. -/
  | inside {rule : NodeId} {children own : List Tree} {outer command : Node} {place : Nat}
      {child : Tree} {path : List Nat} (found : model.node? rule = some outer)
      (group : outer.isCommand = true) (place_of : children[place]? = some child)
      (inner : CommandAt model child path command own) :
      CommandAt model (.branch rule children) (place :: path) command own

/-- The branches under a command break no rule of what it declares. -/
def Obeys (model : Model) (command : Node) (own : List Tree) : Prop :=
  ∀ node ∈ model.nodesOf command.declared, ¬ node.Breaks ((branchRules own).count node.id)

/-- The violation is of the first declaration of the command whose rules the branches under it
break. -/
def FirstBroken (model : Model) (command : Node) (own : List Tree) (violation : Violation) : Prop :=
  ∃ before node after, model.nodesOf command.declared = before ++ node :: after ∧
    (∀ other ∈ before, ¬ other.Breaks ((branchRules own).count other.id)) ∧
    node.Breaks ((branchRules own).count node.id) ∧
    violation = ⟨node.id, node.name, (branchRules own).count node.id⟩

/-- The violation is of the first command in the tree, in pre-order, of whose declarations one is
broken. -/
structure FirstIn (model : Model) (tree : Tree) (violation : Violation) (path : List Nat)
    (command : Node) (own : List Tree) : Prop where
  /-- The command is there. -/
  at_path : model.CommandAt tree path command own
  /-- Of what it declares the violation is the first one. -/
  broken : model.FirstBroken command own violation
  /-- All commands before it obey the rules. -/
  earlier : ∀ before other children, model.CommandAt tree before other children →
    before < path → model.Obeys other children

variable {model : Model} {tree : Tree} {trees own : List Tree} {command : Node} {path : List Nat}
  {violation : Violation}

/-! ## One command -/

/-- A command is without violation of its own exactly if it obeys the rules. -/
theorem ownViolation?_eq_none_iff :
    model.ownViolation? command own = none ↔ model.Obeys command own := by
  rw [ownViolation?, List.findSome?_eq_none_iff]
  refine forall₂_congr fun node _ => ?_
  rw [← Node.allows_eq_false_iff]
  cases allowed : node.allows ((branchRules own).count node.id) <;> simp [allowed]

/-- The violation of a command is of the first declaration that is broken. -/
theorem firstBroken_of_ownViolation? (failed : model.ownViolation? command own = some violation) :
    model.FirstBroken command own violation := by
  rw [ownViolation?, List.findSome?_eq_some_iff] at failed
  obtain ⟨before, node, after, split, found, none_before⟩ := failed
  refine ⟨before, node, after, split, fun other member => ?_, ?_⟩
  · have allowed := none_before other member
    rw [← Node.allows_eq_false_iff]
    intro refused
    simp [refused] at allowed
  · obtain ⟨refused, same⟩ := Option.ite_none_left_eq_some.1 found
    rw [← Node.allows_eq_false_iff]
    exact ⟨Bool.eq_false_iff.2 refused, (Option.some.inj same).symm⟩

/-! ## Trees -/

/-- The commands of a tree without violation obey the rules. -/
theorem CommandAt.obeys (there : model.CommandAt tree path command own)
    (valid : model.treeViolation? tree = none) : model.Obeys command own := by
  induction there with
  | here found group =>
    simp only [treeViolation?, found, group, if_true, Option.or_eq_none_iff] at valid
    exact ownViolation?_eq_none_iff.1 valid.1
  | inside found group place_of inner ih =>
    simp only [treeViolation?, found, group, if_true, Option.or_eq_none_iff] at valid
    exact ih (treesViolation?_eq_none_iff.1 valid.2 _ (List.mem_of_getElem? place_of))

mutual

/-- The violation of a tree is the first one in it. -/
theorem exists_firstIn_of_treeViolation? (tree : Tree)
    (failed : model.treeViolation? tree = some violation) :
    ∃ path command own, model.FirstIn tree violation path command own := by
  cases tree with
  | leaf leaf => cases failed
  | branch rule children =>
    rw [treeViolation?] at failed
    split at failed
    · cases failed
    · next outer found =>
      split at failed
      · next group =>
        have here : model.CommandAt (.branch rule children) [] outer children := .here found group
        rcases Option.or_eq_some_iff.1 failed with own | ⟨obeys, inner⟩
        · refine ⟨[], outer, children, here, firstBroken_of_ownViolation? own, ?_⟩
          intro before other below _ less
          exact absurd less (List.not_lt_nil before)
        · obtain ⟨place, child, place_of, ⟨path, command, own, first⟩, valid⟩ :=
            exists_place_of_treesViolation? children inner
          refine ⟨place :: path, command, own, .inside found group place_of first.at_path,
            first.broken, ?_⟩
          intro before other below there less
          cases there with
          | here found' =>
            rw [found] at found'
            cases found'
            exact ownViolation?_eq_none_iff.1 obeys
          | inside _ _ other_of inner =>
            -- Either an earlier child, or the same one and a command before the one in it.
            rcases List.cons_lt_cons_iff.1 less with sooner | ⟨rfl, further⟩
            · exact inner.obeys (valid _ sooner _ other_of)
            · rw [place_of] at other_of
              cases other_of
              exact first.earlier _ _ _ inner further
      · cases failed

/-- The violation of several trees is the first one in the first tree that has one. -/
theorem exists_place_of_treesViolation? (trees : List Tree)
    (failed : model.treesViolation? trees = some violation) :
    ∃ (place : Nat) (tree : Tree), trees[place]? = some tree ∧
      (∃ path command own, model.FirstIn tree violation path command own) ∧
      ∀ sooner < place, ∀ other, trees[sooner]? = some other →
        model.treeViolation? other = none := by
  cases trees with
  | nil => cases failed
  | cons tree rest =>
    rw [treesViolation?] at failed
    rcases Option.or_eq_some_iff.1 failed with head | ⟨valid, later⟩
    · exact ⟨0, tree, rfl, exists_firstIn_of_treeViolation? tree head,
        fun _ less => absurd less (Nat.not_lt_zero _)⟩
    · obtain ⟨place, other, place_of, first, before⟩ := exists_place_of_treesViolation? rest later
      refine ⟨place + 1, other, place_of, first, fun sooner less skipped at_place => ?_⟩
      cases sooner with
      | zero =>
        cases at_place
        exact valid
      | succ sooner => exact before sooner (Nat.lt_of_succ_lt_succ less) skipped at_place

end

/-- A parse has no violation exactly if every command of it that is reached through commands obeys
the rules of all that it declares, by the branches right under it. The violation of a parse is
that of the first declaration that is broken of the first command, in pre-order, that has one. -/
theorem occurrences_checked (model : Model) (parse : Parse) :
    (model.violation? parse = none ↔ ∀ path command own,
      model.CommandAt parse.root path command own → model.Obeys command own) ∧
    ∀ violation, model.violation? parse = some violation →
      ∃ path command own, model.FirstIn parse.root violation path command own := by
  refine ⟨⟨fun valid path command own there => there.obeys valid, fun obey => ?_⟩,
    fun violation failed => exists_firstIn_of_treeViolation? parse.root failed⟩
  cases failed : model.violation? parse with
  | none => rfl
  | some violation =>
    obtain ⟨path, command, own, first⟩ := exists_firstIn_of_treeViolation? parse.root failed
    obtain ⟨before, node, after, split, _, breaks, _⟩ := first.broken
    have declared : node ∈ model.nodesOf command.declared := by simp [split]
    exact absurd breaks (obey path command own first.at_path node declared)

/-- Two invocations of a command are counted apart: an option that has to occur twice does not occur
often enough in either. -/
example : (ofSchema {
      name := "net"
      subcommands := [{
        name := "link", multiple := true
        params := [{ Param.option ["--end"] with arity := .exactly 2 }] }] }).toOption.map
    (fun model => model.violation?
      ⟨"", 0, [.branch 1 [.branch 2 []], .branch 1 [.branch 2 []]]⟩) =
    some (some ⟨2, "end", 1⟩) := by
  decide +kernel

end Model

end CommandGrammar
