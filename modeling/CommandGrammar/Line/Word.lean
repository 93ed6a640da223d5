import CommandGrammar.Text.Blank

/-!
# Words of a command line

A command line is cut into words at blanks, with the quoting rules of a POSIX
shell. Scanning is a left fold over the characters, so the state reached after a
prefix is all that the rest of the line sees. A word remembers how many of its
characters came before the first quote or backslash: only that bare part can
hold a trigger and its separator.
-/

namespace CommandGrammar.Line

/-- A word of the line, its quoting removed. -/
structure Word where
  /-- Byte offset of the word's first character in the line. -/
  offset : Nat
  /-- The characters, without quotes and backslashes. -/
  chars : List Char
  /-- How many of the characters stand before the first quote or backslash. -/
  bare : Nat
deriving DecidableEq, Repr

/-- The ways in which a line ends inside a quotation. -/
inductive LexFault where
  /-- A single quote is still open. -/
  | unterminatedSingleQuote
  /-- A double quote is still open. -/
  | unterminatedDoubleQuote
  /-- The last character is a backslash that quotes nothing. -/
  | danglingEscape
deriving DecidableEq, Repr

/-- The wording of a fault. -/
def LexFault.message : LexFault → String
  | .unterminatedSingleQuote => "unterminated single quote"
  | .unterminatedDoubleQuote => "unterminated double quote"
  | .danglingEscape => "dangling escape"

/-- What surrounds the next character of the line. -/
inductive Quoting where
  /-- Outside quotes. -/
  | bare
  /-- After a backslash outside quotes. -/
  | escaped
  /-- Between single quotes. -/
  | single
  /-- Between double quotes. -/
  | double
  /-- After a backslash between double quotes. -/
  | doubleEscaped
deriving DecidableEq, Repr

/-- A word that is still being read. -/
structure OpenWord where
  /-- Byte offset of the word's first character in the line. -/
  offset : Nat
  /-- The characters read so far, the latest first. -/
  reversed : List Char
  /-- How many characters had been read at the first quote or backslash, if there was one. -/
  quotedFrom : Option Nat
deriving DecidableEq, Repr

/-- A word that starts at an offset and has no characters yet. -/
def OpenWord.startingAt (offset : Nat) : OpenWord := ⟨offset, [], none⟩

/-- Adds a character to the word. -/
def OpenWord.push (word : OpenWord) (c : Char) : OpenWord :=
  { word with reversed := c :: word.reversed }

/-- Marks the rest of the word as quoted, unless that has already happened. -/
def OpenWord.markQuoted (word : OpenWord) : OpenWord :=
  { word with quotedFrom := word.quotedFrom.or (some word.reversed.length) }

/-- The finished word. -/
def OpenWord.close (word : OpenWord) : Word :=
  ⟨word.offset, word.reversed.reverse, word.quotedFrom.getD word.reversed.length⟩

/-- State of the scan between two characters. -/
structure Scan where
  /-- Byte offset of the next character. -/
  offset : Nat
  /-- Finished words, the latest first. -/
  finished : List Word
  /-- The word being read, if one is open. -/
  word : Option OpenWord
  /-- What surrounds the next character. -/
  quoting : Quoting
deriving DecidableEq, Repr

/-- State before the first character. -/
def Scan.start : Scan := ⟨0, [], none, .bare⟩

/-- The word being read, opened here if there is none. -/
def Scan.current (scan : Scan) : OpenWord :=
  scan.word.getD (.startingAt scan.offset)

/-- The finished words and the one being read, the latest first. -/
def Scan.closed (scan : Scan) : List Word :=
  match scan.word with
  | none => scan.finished
  | some word => word.close :: scan.finished

/-- Between double quotes a backslash quotes only these characters; a line feed after it vanishes. -/
def quotedInDouble (c : Char) : Bool :=
  c == '"' || c == '\\' || c == '$' || c == '\x60'

/-- Reads one character. -/
def Scan.step (scan : Scan) (c : Char) : Scan :=
  let scan' := { scan with offset := scan.offset + c.utf8Size }
  match scan.quoting with
  | .bare =>
    if Text.isBlank c then { scan' with finished := scan.closed, word := none }
    else if c = '\'' then { scan' with word := some scan.current.markQuoted, quoting := .single }
    else if c = '"' then { scan' with word := some scan.current.markQuoted, quoting := .double }
    else if c = '\\' then { scan' with word := some scan.current.markQuoted, quoting := .escaped }
    else { scan' with word := some (scan.current.push c) }
  | .escaped =>
    if c = '\n' then { scan' with quoting := .bare }
    else { scan' with word := some (scan.current.push c), quoting := .bare }
  | .single =>
    if c = '\'' then { scan' with quoting := .bare }
    else { scan' with word := some (scan.current.push c) }
  | .double =>
    if c = '"' then { scan' with quoting := .bare }
    else if c = '\\' then { scan' with quoting := .doubleEscaped }
    else { scan' with word := some (scan.current.push c) }
  | .doubleEscaped =>
    if quotedInDouble c then { scan' with word := some (scan.current.push c), quoting := .double }
    else if c = '\n' then { scan' with quoting := .double }
    else { scan' with word := some ((scan.current.push '\\').push c), quoting := .double }

/-- The words of the line, if no quotation is open at its end. -/
def Scan.finish (scan : Scan) : Except LexFault (List Word) :=
  match scan.quoting with
  | .bare => .ok scan.closed.reverse
  | .escaped => .error .danglingEscape
  | .single => .error .unterminatedSingleQuote
  | .double | .doubleEscaped => .error .unterminatedDoubleQuote

/-- The words of a line. -/
def words (line : List Char) : Except LexFault (List Word) :=
  (line.foldl Scan.step Scan.start).finish

end CommandGrammar.Line
