import CommandGrammar.Keyed
import CommandGrammar.Text.Alphanumeric
import CommandGrammar.Text.Blank

/-!
# Files of variables

A file of variables has one assignment a line: perhaps `export`, a name, an equals
sign and a value. Quotes may hold line feeds, so the text is first cut into logical
lines and each of these is then read by itself.

A value may be bare, between single quotes, which take everything as it is, or between
double quotes. Outside single quotes a backslash quotes the next character and a
dollar sign begins the name of a variable to put in. Variables of the environment come
before those of earlier lines.
-/

namespace CommandGrammar.Dotenv

/-- What surrounds the next character when the text is cut into logical lines. -/
inductive LineState where
  /-- Nothing. -/
  | plain
  /-- A blank, after which a number sign begins a comment. -/
  | blank
  /-- A backslash. -/
  | escaped
  /-- Single quotes. -/
  | single
  /-- A backslash between single quotes. -/
  | singleEscaped
  /-- Double quotes. -/
  | double
  /-- A backslash between double quotes. -/
  | doubleEscaped
deriving DecidableEq, Repr

/-- The state after a character that opens no comment. -/
def LineState.next (state : LineState) (c : Char) : LineState :=
  let opening : LineState :=
    if c = '\\' then .escaped else if c = '"' then .double else if c = '\'' then .single
    else .plain
  match state with
  | .blank => opening
  | .escaped => .plain
  | .plain => if Text.isBlank c ∧ c ≠ '\n' ∧ c ≠ '\x0d' then .blank else opening
  | .double => if c = '\\' then .doubleEscaped else if c = '"' then .plain else .double
  | .doubleEscaped => .double
  | .single => if c = '\\' then .singleEscaped else if c = '\'' then .plain else .single
  | .singleEscaped => .single

/-- Scans a physical line: the state at its end, or what stands before a comment. The characters
before come with the latest first. -/
def scanLine (state : LineState) (before : List Char) : List Char → LineState ⊕ List Char
  | [] => .inl state
  | c :: cs =>
    if state = .blank ∧ c = '#' then .inr before.reverse
    else scanLine (state.next c) (c :: before) cs

/-- The physical lines of a text, each with its line feed. -/
def physicalLines : List Char → List (List Char)
  | [] => []
  | c :: cs =>
    if c = '\n' then [c] :: physicalLines cs
    else match physicalLines cs with
      | [] => [[c]]
      | line :: rest => (c :: line) :: rest

/-- The text without the line feed, or carriage return and line feed, at its end. -/
def dropLineEnd (cs : List Char) : List Char :=
  match cs.reverse with
  | '\n' :: '\x0d' :: rest => rest.reverse
  | '\n' :: rest => rest.reverse
  | _ => cs

/-- The logical lines. One that begins with a number sign is empty; one that is still open at
its end takes in the next physical line; a comment cuts off the rest. None if the text
ends inside a logical line. -/
def logicalLines (pending : List Char) (state : LineState) :
    List (List Char) → Option (List (List Char))
  | [] => if state = .plain then some [] else none
  | line :: rest =>
    let whole := pending ++ line
    if (whole.dropWhile Text.isBlank).head? = some '#' then
      (logicalLines [] .plain rest).map ([] :: ·)
    else match scanLine state [] line with
      | .inr part => (logicalLines [] .plain rest).map ((pending ++ part) :: ·)
      | .inl .plain => (logicalLines [] .plain rest).map (dropLineEnd whole :: ·)
      | .inl state => logicalLines whole state rest

/-- How the name of a variable is being read. -/
inductive Naming where
  /-- No name is being read. -/
  | none
  /-- After a dollar sign. -/
  | begun
  /-- Between braces. -/
  | braced
deriving DecidableEq, Repr

/-- State of reading a value. -/
structure Scan where
  /-- The characters so far, the latest first. -/
  reversed : List Char
  /-- Between single quotes. -/
  single : Bool
  /-- Between double quotes. -/
  double : Bool
  /-- After a backslash. -/
  escaped : Bool
  /-- After a bare blank, where only blanks and a comment may follow. -/
  ended : Bool
  /-- A comment has begun. -/
  comment : Bool
  /-- How a name is being read. -/
  naming : Naming
  /-- The name so far, the latest character first. -/
  name : List Char

/-- The state before the first character. -/
def Scan.start : Scan := ⟨[], false, false, false, false, false, .none, []⟩

/-- Adds a character. -/
def Scan.push (scan : Scan) (c : Char) : Scan := { scan with reversed := c :: scan.reversed }

/-- Puts in the variable whose name has been read. -/
def Scan.substitute (scan : Scan) (lookup : String → String) : Scan :=
  let value := lookup (String.ofList scan.name.reverse)
  { scan with reversed := value.toList.reverse ++ scan.reversed, name := [], naming := .none }

/-- Reads one character while a name is being read. -/
def Scan.stepName (scan : Scan) (lookup : String → String) (c : Char) : Scan :=
  if Text.isAlphanumeric c then { scan with name := c :: scan.name }
  else if scan.naming = .braced then
    if c = '\x7d' then scan.substitute lookup else { scan with name := c :: scan.name }
  else if c = '\x7b' ∧ scan.name = [] then { scan with naming := .braced }
  else
    let scan := scan.substitute lookup
    if c = '$' then { scan with naming := .begun } else scan.push c

/-- Reads one character of a value, if it may stand there. -/
def Scan.step (lookup : String → String) (scan : Scan) (c : Char) : Option Scan :=
  if scan.comment then some scan
  else if scan.ended then
    if c = ' ' ∨ c = '\t' then some scan
    else if c = '#' then some { scan with comment := true }
    else none
  else if scan.escaped then
    let scan := { scan with escaped := false }
    if c = '\\' ∨ c = '\'' ∨ c = '"' ∨ c = '$' ∨ c = ' ' then some (scan.push c)
    else if c = 'n' then some (scan.push '\n')
    else none
  else if scan.single then
    some (if c = '\'' then { scan with single := false } else scan.push c)
  else if scan.naming ≠ .none then some (scan.stepName lookup c)
  else if c = '$' then some { scan with naming := .begun }
  else if scan.double then
    some (if c = '"' then { scan with double := false }
      else if c = '\\' then { scan with escaped := true }
      else scan.push c)
  else if c = '\'' then some { scan with single := true }
  else if c = '"' then some { scan with double := true }
  else if c = '\\' then some { scan with escaped := true }
  else if c = ' ' ∨ c = '\t' then some { scan with ended := true }
  else some (scan.push c)

/-- Reads a value. -/
def readValue (lookup : String → String) (cs : List Char) : Option String := do
  let scan ← cs.foldlM (Scan.step lookup) Scan.start
  if scan.single || scan.double || scan.naming == .braced then none
  else some (String.ofList (scan.substitute lookup).reversed.reverse)

/-- A character that may begin a name. -/
def beginsName (c : Char) : Bool := c.isAlpha || c == '_'

/-- A character that may continue a name. -/
def continuesName (c : Char) : Bool := c.isAlphanum || c == '_' || c == '.'

/-- Reads a name and the blanks after it. -/
def readName : List Char → Option (String × List Char)
  | [] => none
  | c :: cs =>
    if beginsName c then
      some (String.ofList (c :: cs.takeWhile continuesName),
        (cs.dropWhile continuesName).dropWhile Text.isBlank)
    else none

/-- Reads a name and the equals sign after it. The name may follow the word `export`, which is
a name itself if the sign comes next. -/
def readTarget (cs : List Char) : Option (String × List Char) := do
  match ← readName cs with
  | (name, '=' :: rest) => some (name, rest)
  | (name, rest) =>
    if name = "export" then
      match ← readName rest with
      | (name, '=' :: rest) => some (name, rest)
      | _ => none
    else none

/-- Reads a logical line: an assignment, or nothing for a blank one. -/
def readLine (lookup : String → String) (line : List Char) :
    Option (Option (String × String)) := do
  let cs := Text.trimBy Text.isBlank line
  if cs.isEmpty ∨ cs.head? = some '#' then some none
  else
    let (name, rest) ← readTarget cs
    let rest := rest.dropWhile Text.isBlank
    if rest.isEmpty ∨ rest.head? = some '#' then some (some (name, ""))
    else some (some (name, ← readValue lookup rest))

/-- Reads logical lines; later ones see the variables of earlier ones. -/
def readLines (environment : Keyed String String) (read : Keyed String String) :
    List (List Char) → Option (Keyed String String)
  | [] => some read
  | line :: rest => do
    let lookup (name : String) : String :=
      ((Keyed.find? name environment).or (Keyed.find? name read)).getD ""
    match ← readLine lookup line with
    | none => readLines environment read rest
    | some (name, value) => readLines environment (Keyed.insert name value read) rest

/-- The variables of a text, if it has no fault. -/
def read? (environment : Keyed String String) (text : String) : Option (Keyed String String) := do
  readLines environment [] (← logicalLines [] .plain (physicalLines text.toList))

end CommandGrammar.Dotenv
