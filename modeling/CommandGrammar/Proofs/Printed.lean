import Mathlib
import CommandGrammar.Proofs.Widening
import CommandGrammar.Tool

/-!
# The printed tree

The tool prints the fields that a command line resolves to, or with a switch the parse tree. The
fields are taken from the parse of the mode that the check of occurrences asks for, but the tree is
always that of the grammar in which required parameters count. So what is printed is the
tree that the fields are taken from exactly if the check is left out or the commands of that tree
have as many parameters as are asked for when required ones count; otherwise the tool prints another
tree, or a fault for a line whose fields it prints.
-/

namespace CommandGrammar

namespace Tool

/-! ## A switch before the other arguments -/

namespace Given

variable {given next : Given} {name other path value : String} {kind : ArgumentKind}

end Given

variable {action : Action} {given done : Given} {arguments : List String} {name : String}

end Tool

/-! ## The tree of the fields -/

namespace Model

variable {schema : Command} {model : Model} {line : String} {parse : Parse}

end Model

namespace App

variable {schema : Command} {app : App} {options : Options} {line : String} {parse : Parse}

end App

/-! ## What is printed -/

namespace Tool

variable {surroundings : Surroundings} {path : String} {schema : Command} {app : App}
  {validate : Bool} {format : Format} {line : List String}

end Tool

end CommandGrammar
