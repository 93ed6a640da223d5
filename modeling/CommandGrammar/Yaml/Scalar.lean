import CommandGrammar.Json.Printer
import CommandGrammar.Number.Decimal
import CommandGrammar.Yaml.Line

/-!
# Texts in YAML

A text stands bare where it can be read as nothing else. One that would be read as a
null, a truth value or a number, or whose form is in the way, stands between single
quotes; one of several lines stands as a block below a bar; and one that neither can
hold stands between double quotes, with escapes.
-/

namespace CommandGrammar.Yaml

/-- The number of 128-bit words. -/
def wordCount : Nat := 0x100000000000000000000000000000000

/-- The number that digits of a base spell, if there is one at least and all are digits. -/
def ofBase? (base : Nat) (digits : List Char) : Option Nat :=
  if digits.isEmpty then none
  else digits.foldlM (fun n c =>
    (Number.hexDigit? c).bind fun digit => if digit < base then some (base * n + digit) else none) 0

/-- The digits of a number and their base, which a zero and a letter before them may name. -/
def baseOf : List Char → Nat × List Char
  | '0' :: 'x' :: digits => (16, digits)
  | '0' :: 'o' :: digits => (8, digits)
  | '0' :: 'b' :: digits => (2, digits)
  | digits => (10, digits)

/-- The text is read as an integer: a sign, perhaps a base, and digits, of at most 128 bits. -/
def isInteger (cs : List Char) : Bool :=
  let (negative, cs) := match cs with
    | '+' :: cs => (false, cs)
    | '-' :: cs => (true, cs)
    | cs => (false, cs)
  let (base, digits) := baseOf cs
  (ofBase? base digits).any fun n => if negative then 2 * n ≤ wordCount else n < wordCount

/-- The text is read as a number with a point or a power of ten, or as one that is none. -/
def isFloat (text : String) : Bool :=
  [".inf", ".Inf", ".INF", "+.inf", "+.Inf", "+.INF", "-.inf", "-.Inf", "-.INF",
      ".nan", ".NaN", ".NAN"].contains text ||
    match Number.readFloat text with
    | .ok x => x.isFinite
    | .error _ => false

/-- The text is a row of digits that begins with a zero. It is read as a text, but not by all. -/
def isPaddedNumber (cs : List Char) : Bool :=
  let digits := match cs with
    | '+' :: digits | '-' :: digits => digits
    | digits => digits
  digits.length ≠ 1 && digits.head? == some '0' && digits.all Char.isDigit

/-- Texts that are read as a null or a truth value. -/
def reservedWords : List String :=
  ["", "~", "null", "Null", "NULL", "true", "True", "TRUE", "false", "False", "FALSE"]

/-- A text that without quotes could be read as something else. -/
def isReserved (text : String) : Bool :=
  reservedWords.contains text || isInteger text.toList || isFloat text ||
    isPaddedNumber text.toList

/-- A character that begins no bare text. -/
def isIndicator (c : Char) : Bool := "#,[]\x7b\x7d&*!|>'\"%@\x60".toList.contains c

/-- The characters after the first may stand bare: no colon before a blank or the end, and no
number sign after a blank. -/
def continuesBare : List Char → Bool
  | [] => true
  | [c] => c ≠ ':'
  | c :: next :: cs =>
    !(c == ':' && next == ' ') && !(c == ' ' && next == '#') && continuesBare (next :: cs)

/-- A text may begin bare: with no indicator, with no mark of a document, and with a dash, a
question mark or a colon only before other characters. -/
def beginsBare : List Char → Bool
  | [] => false
  | '-' :: '-' :: '-' :: _ => false
  | '.' :: '.' :: '.' :: _ => false
  | c :: cs =>
    !isIndicator c && !((c == '-' || c == '?' || c == ':') && (cs.isEmpty || cs.head? == some ' '))

/-- Two characters of two classes stand next to each other. -/
def hasPair (first second : Char → Bool) (cs : List Char) : Bool :=
  (cs.zip (cs.drop 1)).any fun pair => first pair.1 && second pair.2

/-- A character that can stand in a text without an escape. The mark of byte order cannot. -/
def isPrintable (c : Char) : Bool :=
  (hasForm c && c != '\ufeff') || c == '\n'

/-- A character is the blank. -/
def isSpace (c : Char) : Bool := c == ' '

/-- A text may stand bare. -/
def fitsBare (cs : List Char) : Bool :=
  cs.all isPrintable && !cs.any isBreak && beginsBare cs && continuesBare cs &&
    cs.head? != some ' ' && cs.getLast? != some ' '

/-- A text may stand between single quotes. -/
def fitsQuotes (cs : List Char) : Bool :=
  cs.all isPrintable && !hasPair isSpace isBreak cs && !hasPair isBreak isSpace cs

/-- A text may stand as a block. -/
def fitsBlock (cs : List Char) : Bool :=
  cs.all isPrintable && !hasPair isSpace isBreak cs && cs.getLast? != some ' '

/-- How a text is written. -/
inductive ScalarStyle where
  /-- As it is. -/
  | bare
  /-- Between single quotes. -/
  | quotes
  /-- Line by line below a bar. -/
  | block
  /-- Between double quotes. -/
  | escapes
deriving DecidableEq, Repr

/-- The style of a text. -/
def scalarStyle (text : String) : ScalarStyle :=
  let cs := text.toList
  if cs.contains '\n' then if fitsBlock cs then .block else .escapes
  else if !isReserved text && fitsBare cs then .bare
  else if fitsQuotes cs then .quotes
  else .escapes

/-- Blanks up to a column. -/
def indentation (column : Nat) : List Char := List.replicate column ' '

/-- The characters with an indentation before each one that begins a line; `starts` says that the
first one does. -/
def indentLines (column : Nat) : Bool → List Char → List Char
  | _, [] => []
  | starts, c :: cs =>
    if isBreak c then c :: indentLines column true cs
    else if starts then indentation column ++ c :: indentLines column false cs
    else c :: indentLines column false cs

/-- A text between single quotes, which are doubled inside. A line of it begins at a column. -/
def inQuotes (column : Nat) (cs : List Char) : List Char :=
  let tail := if cs.getLast?.any isBreak then indentation column else []
  '\'' :: indentLines column false (cs.flatMap fun c => if c = '\'' then ['\'', '\''] else [c]) ++
    tail ++ ['\'']

/-- What a block says of the line ends at its end: none, one, or all that are there. -/
def chomping (cs : List Char) : List Char :=
  match cs.reverse with
  | last :: before =>
    if !isBreak last then ['-']
    else if before.isEmpty || before.head?.any isBreak then ['+']
    else []
  | [] => ['-']

/-- A text as a block whose lines begin at a column. The bar has a number after it if the text
begins with a blank or a line end. -/
def asBlock (column : Nat) (cs : List Char) : List Char :=
  let hint := if cs.head?.any fun c => isSpace c || isBreak c then ['2'] else []
  '|' :: hint ++ chomping cs ++ '\n' :: indentLines column true cs

/-- Digits of a number in base sixteen, as many as are wanted. -/
def hexDigits (count n : Nat) : List Char :=
  ((List.range count).reverse.map fun place => (Nat.digitChar (n >>> (4 * place) % 16)).toUpper)

/-- A character between double quotes. -/
def escape (c : Char) : List Char :=
  let n := c.toNat
  if c = '"' ∨ c = '\\' then ['\\', c]
  else if isPrintable c && !isBreak c then [c]
  else if n = 0 then ['\\', '0']
  else if n = 7 then ['\\', 'a']
  else if n = 8 then ['\\', 'b']
  else if n = 9 then ['\\', 't']
  else if n = 10 then ['\\', 'n']
  else if n = 11 then ['\\', 'v']
  else if n = 12 then ['\\', 'f']
  else if n = 13 then ['\\', 'r']
  else if n = 27 then ['\\', 'e']
  else if n = 0x85 then ['\\', 'N']
  else if n = 0x2028 then ['\\', 'L']
  else if n = 0x2029 then ['\\', 'P']
  else if n < 0x100 then '\\' :: 'x' :: hexDigits 2 n
  else if n < 0x10000 then '\\' :: 'u' :: hexDigits 4 n
  else '\\' :: 'U' :: hexDigits 8 n

/-- A text as a scalar. Where it takes several lines, those after the first begin at a column. -/
def scalar (column : Nat) (text : String) : String :=
  let cs := text.toList
  String.ofList (match scalarStyle text with
    | .bare => cs
    | .quotes => inQuotes column cs
    | .block => asBlock column cs
    | .escapes => '"' :: cs.flatMap escape ++ ['"'])

end CommandGrammar.Yaml
