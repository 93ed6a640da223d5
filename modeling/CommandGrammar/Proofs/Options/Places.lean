import Mathlib
import CommandGrammar.Tree.Occurrences
import CommandGrammar.Proofs.Options.Uses

/-!
# Occurrences of parameters

The branches under the root of a command without subcommands are those of its parameters. The
check of occurrences goes through the parameters in their order and counts the branches of each;
inside the branches there is nothing to check.
-/

namespace CommandGrammar

namespace Command

variable {schema : Command}

/-- Different parameters have different numbers. -/
theorem optionId_eq_iff {place other : Fin schema.params.length} :
    schema.optionId place = schema.optionId other ↔ place = other := by
  rw [optionId, optionId, Nat.add_right_cancel_iff, Fin.val_inj]

/-- The node of a parameter is no command. -/
theorem isParam_optionNode (place : Fin schema.params.length) :
    (schema.optionNode place).isParam = true := by
  unfold optionNode Node.ofParam Node.isParam
  cases (schema.params[place]).form <;> rfl

/-- The violation of a parameter that occurs a number of times, if that is not allowed. -/
def violationAt? (schema : Command) (place : Fin schema.params.length) (observed : Nat) :
    Option Violation :=
  if (schema.optionNode place).allows observed then none
  else some ⟨schema.optionId place, (schema.optionNode place).name, observed⟩

/-- Branches of parameters, one for each of the places. -/
def AtPlaces (schema : Command) (branches : List Tree)
    (places : List (Fin schema.params.length)) : Prop :=
  List.Forall₂ (fun tree place => ∃ children, tree = .branch (schema.optionId place) children)
    branches places

/-- The rules of the branches of parameters are the numbers of the parameters. -/
theorem AtPlaces.branchRules {branches : List Tree} {places : List (Fin schema.params.length)}
    (each : schema.AtPlaces branches places) :
    CommandGrammar.branchRules branches = places.map schema.optionId := by
  induction each with
  | nil => rfl
  | cons branch _ ih =>
    obtain ⟨children, rfl⟩ := branch
    rw [CommandGrammar.branchRules, ih, List.map_cons]

/-- The branches of a parameter are as many as it has places. -/
theorem AtPlaces.count {branches : List Tree} {places : List (Fin schema.params.length)}
    (each : schema.AtPlaces branches places) (place : Fin schema.params.length) :
    (CommandGrammar.branchRules branches).count (schema.optionId place) = places.count place := by
  rw [each.branchRules]
  exact List.count_map_of_injective _ _ (fun _ _ same => optionId_eq_iff.1 same) _

end Command

namespace Model

variable {schema : Command} {model : Model} {branches : List Tree}
  {places : List (Fin schema.params.length)}

/-- Nothing inside the branches of parameters breaks a rule. -/
theorem treesViolation?_places (made : ofSchema schema = .ok model)
    (alone : schema.subcommands = []) (each : schema.AtPlaces branches places) :
    model.treesViolation? branches = none := by
  induction each with
  | nil => rw [treesViolation?]
  | @cons tree place _ _ branch _ ih =>
    obtain ⟨children, rfl⟩ := branch
    have param : (schema.optionNode place).isCommand = false := by
      rw [Node.isCommand, Command.isParam_optionNode place]
      rfl
    simp [treesViolation?, treeViolation?, node?_option made alone, param, ih]

/-- The first parameter whose count is not allowed is the violation of a parse. -/
theorem violation?_places (made : ofSchema schema = .ok model) (alone : schema.subcommands = [])
    (each : schema.AtPlaces branches places) (input : String) (leaf : Leaf) :
    model.violation? ⟨input, 0, .leaf leaf :: branches⟩ =
      (List.finRange schema.params.length).findSome? fun place =>
        schema.violationAt? place (places.count place) := by
  have command : model.root.isCommand = true := by
    simp [Node.isCommand, Node.isParam, (root_options made alone).2]
  have observed (place : Fin schema.params.length) :
      (branchRules (.leaf leaf :: branches)).count (schema.optionNode place).id =
        places.count place :=
    each.count place
  simp only [violation?, Parse.root, treeViolation?, treesViolation?, node?_zero, command, if_true,
    treesViolation?_places made alone each, Option.or_none, ownViolation?,
    nodesOf_root made alone, List.findSome?_map, Function.comp_def, observed]
  rfl

/-- A parse breaks no rule exactly if the count of every parameter is allowed. -/
theorem violation?_eq_none_iff (made : ofSchema schema = .ok model)
    (alone : schema.subcommands = []) (each : schema.AtPlaces branches places) (input : String)
    (leaf : Leaf) : model.violation? ⟨input, 0, .leaf leaf :: branches⟩ = none ↔
      ∀ place, (schema.optionNode place).allows (places.count place) = true := by
  rw [violation?_places made alone each, List.findSome?_eq_none_iff]
  simp [Command.violationAt?]

/-- If one parameter alone has a count that is not allowed, it is the violation. -/
theorem violation?_of_only (made : ofSchema schema = .ok model) (alone : schema.subcommands = [])
    (each : schema.AtPlaces branches places) {place : Fin schema.params.length}
    (broken : (schema.optionNode place).allows (places.count place) = false)
    (others : ∀ other, other ≠ place →
      (schema.optionNode other).allows (places.count other) = true)
    (input : String) (leaf : Leaf) : model.violation? ⟨input, 0, .leaf leaf :: branches⟩ =
      some ⟨schema.optionId place, (schema.optionNode place).name, places.count place⟩ := by
  rw [violation?_places made alone each]
  have own : schema.violationAt? place (places.count place) =
      some ⟨schema.optionId place, (schema.optionNode place).name, places.count place⟩ := by
    simp [Command.violationAt?, broken]
  cases found : (List.finRange schema.params.length).findSome? fun place =>
      schema.violationAt? place (places.count place) with
  | none =>
    have passed := List.findSome?_eq_none_iff.1 found place (List.mem_finRange place)
    rw [own] at passed
    cases passed
  | some violation =>
    obtain ⟨other, _, same⟩ := List.exists_of_findSome?_eq_some found
    have here : other = place := by
      by_contra differs
      simp [Command.violationAt?, others other differs] at same
    rw [here, own] at same
    exact same.symm

end Model

end CommandGrammar
