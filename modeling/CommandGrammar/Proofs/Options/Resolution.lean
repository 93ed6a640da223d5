import Mathlib
import CommandGrammar.App
import CommandGrammar.Proofs.Options.Places
import CommandGrammar.Proofs.Options.Reading
import CommandGrammar.Proofs.Resolved

/-!
# Resolving uses of options

The branches of uses break no occurrence rule if the parameters allow the counts, and they
resolve to the values of the uses. A parameter that is used has its values, or its one value
if it does not collect; one that is not used has its default.
-/

namespace CommandGrammar

namespace Model

variable {schema : Command} {model : Model} {uses : List (OptionUse schema)}

/-- A declaration that does not collect occurs once, if at all. -/
theorem eq_one_of_allows {node : Node} {observed : Nat} (allowed : node.allows observed = true)
    (alone : node.collects = false) (occurs : 0 < observed) : observed = 1 := by
  rw [Node.collects, Bool.or_eq_false_iff] at alone
  obtain ⟨single, exact⟩ := alone
  have arity : node.arity = .exactly 1 := by simpa using exact
  have fixed : node.fixedCount? = some 1 := by
    rw [Node.fixedCount?, arity]
    simp [single]
  by_contra differs
  simp [Node.allows, fixed, differs, occurs] at allowed

end Model

end CommandGrammar
