import CommandGrammar.Chart.Reading
import CommandGrammar.Line.Token
import CommandGrammar.Line.Quote
import CommandGrammar.Text.Escaped

/-!
# Parsing command lines

A line is cut into tokens, a chart is filled with all that the tokens can derive,
and one tree is read from it. A line that derives nothing is reported at the last
token that some derivation reached, with what could have stood there.
-/

namespace CommandGrammar

/-- Why a line has no parse. -/
inductive ParseCause where
  /-- It ends inside a quotation. -/
  | lexical (fault : Line.LexFault)
  /-- At a place among its tokens, which may be the end, nothing can follow but what is listed. -/
  | unexpected (position : Nat) (found : Option String) (expected : List String)
deriving DecidableEq, Repr

/-- A line without parse. -/
structure ParseFault where
  /-- The line. -/
  input : String
  /-- Why it has no parse. -/
  cause : ParseCause
deriving DecidableEq, Repr

/-- The list of what could have come. -/
def expectedText (expected : List String) : String :=
  if expected.isEmpty then "" else "; expected one of: " ++ Text.join ", " expected

/-- The wording of a fault. -/
def ParseFault.message (fault : ParseFault) : String :=
  let input := Text.escaped fault.input
  match fault.cause with
  | .lexical cause => "cannot tokenize " ++ input ++ ": " ++ cause.message
  | .unexpected position (some found) expected =>
    "unexpected token " ++ Text.escaped found ++ " at position " ++ toString position ++
      " in " ++ input ++ expectedText expected
  | .unexpected _ none expected => "unexpected end of input in " ++ input ++ expectedText expected

namespace Table

/-- The fault of tokens without derivation. -/
def fault (input : String) (tokens : List String) (chart : Chart) : ParseFault :=
  ⟨input, .unexpected chart.furthest tokens[chart.furthest]? chart.expected⟩

/-- Parses tokens; the input is only kept. -/
def parseTokens (table : Table) (input : String) (tokens : List String) :
    Except ParseFault Parse :=
  let chart := Chart.ofTokens table tokens
  if chart.covers table.rules.start 0 tokens.length then
    match (Reading.mk table.rules tokens.toArray chart).whole table.rules.start with
    | some [.branch rule children] => .ok ⟨input, rule, children⟩
    | _ => .error (fault input tokens chart)
  else .error (fault input tokens chart)

/-- Parses a line. A word that joins a trigger of the grammar and a value is cut. -/
def parse (table : Table) (line : String) : Except ParseFault Parse :=
  match Line.tokenizeWith table.triggers.contains line with
  | .error fault => .error ⟨line, .lexical fault⟩
  | .ok tokens => table.parseTokens line (tokens.map Line.Token.text)

/-- Parses the line that passes the arguments. -/
def parseArguments (table : Table) (arguments : List String) : Except ParseFault Parse :=
  table.parse (Line.joinArguments arguments)

end Table

end CommandGrammar
