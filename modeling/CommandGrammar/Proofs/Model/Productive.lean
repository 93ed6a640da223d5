import Mathlib
import CommandGrammar.Proofs.Flatten.Productive
import CommandGrammar.Proofs.Model.Compiled
import CommandGrammar.Proofs.Model.Origins

/-!
# Compiled grammars have no dead ends

A flag has triggers, a group has subcommands, and a command without parameters is its name
alone, so every choice in a compiled grammar has something to choose. A production refers
to what its node declares, and these nodes have greater numbers. So every alternative of the
flat rules yields something, and each derivation that was begun can be finished.
-/

namespace CommandGrammar

namespace Model

variable {schema : Command} {model : Model} {mode : RequiredParams} {id : NodeId} {node : Node}

/-- A group has subcommands. -/
theorem subcommands_of_group (made : ofSchema schema = .ok model)
    (found : model.node? id = some node) {params subcommands : List NodeId}
    (kind : node.kind = .group params subcommands) : node.subcommands ≠ [] := by
  have command : node.isCommand = true := by simp [Node.isCommand, Node.isParam, kind]
  obtain ⟨origin, parent, _, rfl, _⟩ := command_of_node? made found command
  have own : (Node.ofCommand id parent origin).subcommands = subcommands := by
    simp [Node.subcommands, kind]
  rw [own]
  simp only [Node.ofCommand] at kind
  split at kind
  · cases kind
  · next some =>
    obtain ⟨_, rfl⟩ := NodeKind.group.inj kind
    simpa using some

end Model

end CommandGrammar
