/-!
# Lines of YAML

Five characters end a line in YAML: the line feed, the carriage return, and three of
Unicode. The characters of a file are the ones with a form, the tab and these five.
-/

namespace CommandGrammar.Yaml

/-- A character that ends a line. -/
def isBreak (c : Char) : Bool :=
  c == '\n' || c == '\x0d' || c == '\u0085' || c == '\u2028' || c == '\u2029'

/-- A character from the blank on that no control, no surrogate and no mark at the end of the
first plane is. -/
def hasForm (c : Char) : Bool :=
  (0x20 ≤ c.toNat && c.toNat < 0x7F) || (0xA0 ≤ c.toNat && c.toNat < 0xFFFE) ||
    0x10000 ≤ c.toNat

/-- A character that may stand in a file. -/
def isAdmitted (c : Char) : Bool := hasForm c || isBreak c || c == '\t'

end CommandGrammar.Yaml
