import Mathlib
import CommandGrammar.App
import CommandGrammar.Proofs.Line.Tokens
import CommandGrammar.Proofs.Options.Resolution
import CommandGrammar.Proofs.Options.Triggers
import CommandGrammar.Proofs.Stages

/-!
# Round trip of options

A line of a command of options is cut into its name and the tokens of the uses: quoting
is undone, a joined word is cut where its trigger ends, and no other word is cut as long as none
of them looks joined. From there on the line has the parse of the uses, and the parse has
their values.
-/

namespace CommandGrammar

namespace OptionUse

variable {schema : Command} {isKnown : String → Bool}

/-- The characters of the words of a use, each with how many of them are bare. -/
def shapes (use : OptionUse schema) : List (List Char × Nat) :=
  let trigger := use.trigger.toList
  let raw := use.raw.toList
  if use.joined then
    [(trigger ++ '=' :: raw, (trigger ++ ['=']).length + Line.bareLength raw)]
  else [(trigger, trigger.length), (raw, Line.bareLength raw)]

end OptionUse

namespace App

variable {schema : Command} {app : App}

end App

end CommandGrammar
