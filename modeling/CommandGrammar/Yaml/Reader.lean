import CommandGrammar.Json.Reader
import CommandGrammar.Number.Decimal
import CommandGrammar.Yaml.Line

/-!
# Reading JSON as YAML

A text in JSON is one in YAML too, as long as it keeps the layout that YAML asks for: a
name and its colon stand on one line, no tab begins a line outside brackets and braces,
and no escape is half of a pair. Words and strings stand for slightly different things:
a number is the nearest one, a number too large for binary64 is a text, and lines inside
a string are folded.
-/

namespace CommandGrammar.Yaml

/-- Where the scan of a text stands. -/
structure Place where
  /-- Inside a string. -/
  quoted : Bool := false
  /-- How many brackets and braces are open. -/
  level : Nat := 0
  /-- Nothing but blanks stands before on the line. -/
  fresh : Bool := true
  /-- Number of characters since the last string began. -/
  distance : Nat := 0
  /-- A line has ended since the last string began. -/
  broken : Bool := false
deriving DecidableEq, Repr

/-- One character further. -/
def Place.step (place : Place) : Place := { place with distance := place.distance + 1 }

/-- The place after a character outside strings, if the character may stand there. -/
def Place.next? (place : Place) (c : Char) : Option Place :=
  let after := place.step
  if c = '"' then some { place with quoted := true, fresh := false, distance := 1, broken := false }
  else if c = '[' ∨ c = '\x7b' then some { after with level := place.level + 1, fresh := false }
  else if c = ']' ∨ c = '\x7d' then some { after with level := place.level - 1, fresh := false }
  else if c = '\n' ∨ c = '\x0d' then some { after with fresh := true, broken := true }
  else if c = ' ' then some after
  else if c = '\t' then if place.level = 0 ∧ place.fresh then none else some after
  else if c = ':' ∧ (place.broken ∨ 1024 < place.distance) then none
  else some { after with fresh := false }

/-- The characters after `\u` begin the number of a code unit that is no character. -/
def beginsSurrogate : List Char → Bool
  | a :: b :: _ => (a == 'd' || a == 'D') && (Number.hexDigit? b).any (8 ≤ ·)
  | _ => false

/-- The characters at the beginning of a line are the mark of a document. -/
def beginsMark : List Char → Bool
  | a :: b :: c :: d :: _ =>
    (a == '-' || a == '.') && a == b && b == c && (d == ' ' || d == '\t' || isBreak d)
  | _ => false

/-- A text in JSON keeps the layout of YAML from a place on. -/
def keepsLayout (place : Place) : List Char → Bool
  | [] => true
  | c :: cs =>
    if place.quoted then
      if c = '"' then keepsLayout { place.step with quoted := false } cs
      else if c = '\\' then
        match cs with
        | [] => false
        | e :: cs => !(e == 'u' && beginsSurrogate cs) && keepsLayout place.step.step cs
      else if isBreak c then !beginsMark cs && keepsLayout { place.step with broken := true } cs
      else keepsLayout place.step cs
    else match place.next? c with
      | none => false
      | some place => keepsLayout place cs

/-- The document in a file: all of it but the marks of byte order at its beginning, one of the
encoding and one of the first line. None if the file breaks the layout. -/
def body? (cs : List Char) : Option (List Char) :=
  let body := match cs with
    | '\ufeff' :: '\ufeff' :: cs => cs
    | '\ufeff' :: cs => cs
    | cs => cs
  if body.all isAdmitted && keepsLayout {} body then some body else none

/-- A run of blanks and line ends inside a string, folded. Blanks around line ends are dropped. A
single line feed becomes a blank; of several the first is dropped. -/
def foldRun (run : List Char) : List Char :=
  match (run.filter isBreak).map fun c => if c == '\u2028' || c == '\u2029' then c else '\n' with
  | [] => run
  | ['\n'] => [' ']
  | '\n' :: ends => ends
  | ends => ends

/-- Replaces the escapes of a string and folds its lines; `read` holds the characters so far and
`run` the blanks and line ends after them, the latest first. -/
def unescape (read run : List Char) : List Char → Option String
  | [] => some (String.ofList ((foldRun run.reverse).reverse ++ read).reverse)
  | '\\' :: 'u' :: a :: b :: c :: d :: cs => do
    let unit ← Written.codeUnit? a b c d
    if Json.isHighUnit unit || Json.isLowUnit unit then none
    else unescape (Char.ofNat unit :: (foldRun run.reverse).reverse ++ read) [] cs
  | '\\' :: e :: cs => do
    unescape ((← Written.escaped? e) :: (foldRun run.reverse).reverse ++ read) [] cs
  | c :: cs =>
    if c == ' ' || isBreak c then unescape read (c :: run) cs
    else unescape (c :: (foldRun run.reverse).reverse ++ read) [] cs

/-- The number of a numeral. An integer fits 64 bits, signed or not; one of up to 128 bits cannot
be read. A number that is not finite is a text. -/
def number? (word : List Char) (numeral : Json.Numeral) : Option Json :=
  let n := numeral.wholeNumber
  let fits (size : Nat) : Bool := if numeral.negative then 2 * n ≤ size else n < size
  if numeral.isInteger && fits UInt64.size then
    some (.integer (if numeral.negative then -n else n))
  else if numeral.isInteger && fits (UInt64.size * UInt64.size) then none
  else match Number.readFloat (String.ofList word) with
    | .ok x => some (if x.isFinite then .float x else .string (String.ofList word))
    | .error _ => none

/-- What words and strings stand for in YAML. -/
def dialect : Dialect where
  word? word := Json.ofWord? (number? word) word
  text? := unescape [] []
  levels := 128

end CommandGrammar.Yaml
