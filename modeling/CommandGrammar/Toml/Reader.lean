import CommandGrammar.Toml.Tagged

/-!
# Reading TOML

The reader takes a document statement by statement. Every function returns what it
read and the rest of the text, or nothing where the syntax of TOML 1.0 is broken.
Brackets and braces nest at most 79 deep.
-/

namespace CommandGrammar.Toml

/-- A blank inside a line. -/
def isGap (c : Char) : Bool := c == ' ' || c == '\t'

/-- Drops blanks inside a line. -/
def skipGaps (cs : List Char) : List Char := cs.dropWhile isGap

/-- A character that may stand in a comment. -/
def inComment (c : Char) : Bool := c == '\t' || (' ' ≤ c && c != '\x7f')

/-- The rest of the text after a line feed, which a carriage return may precede. -/
def afterLineEnd? : List Char → Option (List Char)
  | '\n' :: cs => some cs
  | '\x0d' :: '\n' :: cs => some cs
  | _ => none

/-- Drops a comment, if one comes next. -/
def skipComment : List Char → List Char
  | '#' :: cs => cs.dropWhile inComment
  | cs => cs

/-- The rest of the text after the end of a statement: blanks, perhaps a comment, and the end
of the line or of the text. -/
def endStatement? (cs : List Char) : Option (List Char) :=
  match skipComment (skipGaps cs) with
  | [] => some []
  | cs => afterLineEnd? cs

/-- Drops blanks, comments and line ends between the items of an array. The fuel bounds the
number of lines. -/
def skipLines : Nat → List Char → Option (List Char)
  | 0, cs => some cs
  | fuel + 1, cs =>
    match skipGaps cs with
    | '#' :: cs => do skipLines fuel (← afterLineEnd? (cs.dropWhile inComment))
    | cs =>
      match afterLineEnd? cs with
      | some cs => skipLines fuel cs
      | none => some cs

/-- A character that may stand between single quotes. -/
def inLiteral (c : Char) : Bool := c == '\t' || (' ' ≤ c && c != '\'' && c != '\x7f')

/-- A character that may stand as itself between double quotes. -/
def inBasic (c : Char) : Bool := c == '\t' || (' ' ≤ c && c != '"' && c != '\\' && c != '\x7f')

/-- The character that a count of hexadecimal digits numbers. -/
def readCodePoint (count : Nat) (cs : List Char) : Option (Char × List Char) := do
  let digits := cs.take count
  if digits.length ≠ count then none
  let n ← digits.foldlM (fun n c => (Number.hexDigit? c).map (16 * n + ·)) 0
  if n.isValidChar then some (Char.ofNat n, cs.drop count) else none

/-- The character of an escape, after its backslash. -/
def readEscape : List Char → Option (Char × List Char)
  | 'b' :: cs => some ('\x08', cs)
  | 't' :: cs => some ('\t', cs)
  | 'n' :: cs => some ('\n', cs)
  | 'f' :: cs => some ('\x0c', cs)
  | 'r' :: cs => some ('\x0d', cs)
  | '"' :: cs => some ('"', cs)
  | '\\' :: cs => some ('\\', cs)
  | 'u' :: cs => readCodePoint 4 cs
  | 'U' :: cs => readCodePoint 8 cs
  | _ => none

/-- Reads up to the closing double quote; the fuel bounds the number of characters. -/
def readBasic : Nat → List Char → List Char → Option (String × List Char)
  | 0, _, _ => none
  | fuel + 1, read, cs =>
    match cs with
    | '"' :: cs => some (String.ofList read.reverse, cs)
    | '\\' :: cs => do
      let (c, cs) ← readEscape cs
      readBasic fuel (c :: read) cs
    | c :: cs => if inBasic c then readBasic fuel (c :: read) cs else none
    | [] => none

/-- Reads up to the closing single quote. -/
def readLiteral (cs : List Char) : Option (String × List Char) :=
  match cs.dropWhile inLiteral with
  | '\'' :: rest => some (String.ofList (cs.takeWhile inLiteral), rest)
  | _ => none

/-- The rest of the text after a line end that directly follows three opening quotes. -/
def dropFirstLineEnd (cs : List Char) : List Char := (afterLineEnd? cs).getD cs

/-- The quotes of a run that closes a text of several lines: up to two of them belong to the
text, and three close it. -/
def closingRun? (quote : Char) (cs : List Char) : Option (List Char × List Char) :=
  let run := (cs.takeWhile (· == quote)).length
  if run < 3 then none
  else some (List.replicate (min run 5 - 3) quote, cs.drop (min run 5))

/-- The rest of the text after a backslash that ends its line: the line end and all blanks and
line ends after it. -/
def afterContinuation? (cs : List Char) : Option (List Char) :=
  (afterLineEnd? (skipGaps cs)).map fun rest =>
    let rec skip : Nat → List Char → List Char
      | 0, cs => cs
      | fuel + 1, cs =>
        match afterLineEnd? (skipGaps cs) with
        | some cs => skip fuel cs
        | none => skipGaps cs
    skip rest.length rest

/-- Reads up to three closing double quotes; the fuel bounds the number of characters. -/
def readBasicLines : Nat → List Char → List Char → Option (String × List Char)
  | 0, _, _ => none
  | fuel + 1, read, cs =>
    match closingRun? '"' cs with
    | some (quotes, rest) => some (String.ofList (read.reverse ++ quotes), rest)
    | none =>
      match afterLineEnd? cs with
      | some cs => readBasicLines fuel ('\n' :: read) cs
      | none =>
        match cs with
        | '\\' :: cs =>
          match afterContinuation? cs with
          | some cs => readBasicLines fuel read cs
          | none => do
            let (c, cs) ← readEscape cs
            readBasicLines fuel (c :: read) cs
        | c :: cs =>
          if inBasic c ∨ c = '"' then readBasicLines fuel (c :: read) cs else none
        | [] => none

/-- Reads up to three closing single quotes; the fuel bounds the number of characters. -/
def readLiteralLines : Nat → List Char → List Char → Option (String × List Char)
  | 0, _, _ => none
  | fuel + 1, read, cs =>
    match closingRun? '\'' cs with
    | some (quotes, rest) => some (String.ofList (read.reverse ++ quotes), rest)
    | none =>
      match afterLineEnd? cs with
      | some cs => readLiteralLines fuel ('\n' :: read) cs
      | none =>
        match cs with
        | c :: cs =>
          if inLiteral c ∨ c = '\'' then readLiteralLines fuel (c :: read) cs else none
        | [] => none

/-- Reads a text with its quotes. -/
def readText : List Char → Option (String × List Char)
  | '"' :: '"' :: '"' :: cs =>
    let cs := dropFirstLineEnd cs
    readBasicLines (cs.length + 1) [] cs
  | '\'' :: '\'' :: '\'' :: cs =>
    let cs := dropFirstLineEnd cs
    readLiteralLines (cs.length + 1) [] cs
  | '"' :: cs => readBasic (cs.length + 1) [] cs
  | '\'' :: cs => readLiteral cs
  | _ => none

/-- A character of a bare key. -/
def inBareKey (c : Char) : Bool := c.isAlphanum || c == '_' || c == '-'

/-- Reads a key without dots. -/
def readSimpleKey : List Char → Option (String × List Char)
  | '"' :: cs => readBasic (cs.length + 1) [] cs
  | '\'' :: cs => readLiteral cs
  | cs =>
    let key := cs.takeWhile inBareKey
    if key.isEmpty then none else some (String.ofList key, cs.dropWhile inBareKey)

/-- Reads a key, perhaps dotted, with the blanks around its parts. The fuel bounds the number
of parts. -/
def readKey : Nat → List Char → Option (List String × List Char)
  | 0, _ => none
  | fuel + 1, cs => do
    let (key, cs) ← readSimpleKey (skipGaps cs)
    match skipGaps cs with
    | '.' :: cs =>
      let (keys, cs) ← readKey fuel cs
      return (key :: keys, cs)
    | cs => return ([key], cs)

/-- The greatest depth of brackets and braces, and of dots in a key. -/
def deepest : Nat := 79

/-- Takes digits with single underscores between them, underscores left out. -/
def groupedDigits (isDigit : Char → Bool) : List Char → List Char × List Char
  | '_' :: c :: cs =>
    if isDigit c then
      let (digits, rest) := groupedDigits isDigit cs
      (c :: digits, rest)
    else ([], '_' :: c :: cs)
  | c :: cs =>
    if isDigit c then
      let (digits, rest) := groupedDigits isDigit cs
      (c :: digits, rest)
    else ([], c :: cs)
  | [] => ([], [])

/-- Reads digits, at least one, the first without underscore before it. -/
def readDigits (isDigit : Char → Bool) : List Char → Option (List Char × List Char)
  | '_' :: _ => none
  | cs =>
    match groupedDigits isDigit cs with
    | ([], _) => none
    | found => some found

/-- Reads digits of a decimal number, in which no zero stands before other digits. -/
def readDecimalDigits : List Char → Option (List Char × List Char)
  | '0' :: cs => some (['0'], cs)
  | cs => readDigits Char.isDigit cs

/-- The sign of a number, and the rest of the text. -/
def takeSign : List Char → Option Char × List Char
  | '+' :: cs => (some '+', cs)
  | '-' :: cs => (some '-', cs)
  | cs => (none, cs)

/-- A 64-bit integer. -/
def inRange? (n : Int) : Option Int64 :=
  if Int64.minValue.toInt ≤ n ∧ n ≤ Int64.maxValue.toInt then some (Int64.ofInt n) else none

/-- The number of digits in a base. -/
def ofDigits (base : Nat) (digits : List Char) : Nat :=
  digits.foldl (fun n c => base * n + (Number.hexDigit? c).getD 0) 0

/-- Reads digits in a base. -/
def readBased (base : Nat) (cs : List Char) : Option (Int64 × List Char) := do
  let isDigit (c : Char) : Bool := (Number.hexDigit? c).any (· < base)
  let (digits, rest) ← readDigits isDigit cs
  return (← inRange? (ofDigits base digits), rest)

/-- Reads an integer. -/
def readInteger : List Char → Option (Int64 × List Char)
  | '0' :: 'x' :: cs => readBased 16 cs
  | '0' :: 'o' :: cs => readBased 8 cs
  | '0' :: 'b' :: cs => readBased 2 cs
  | cs => do
    let (sign, cs) := takeSign cs
    let (digits, rest) ← readDecimalDigits cs
    let n : Int := ofDigits 10 digits
    return (← inRange? (if sign = some '-' then -n else n), rest)

/-- Reads the exponent of a number after its letter. -/
def readPower (cs : List Char) : Option (Int × List Char) := do
  let (sign, cs) := takeSign cs
  let (digits, rest) ← readDigits Char.isDigit cs
  let n : Int := ofDigits 10 digits
  return (if sign = some '-' then -n else n, rest)

/-- Reads the exponent of a number, if one comes next. -/
def readOptionalPower : List Char → Option (Option Int × List Char)
  | 'e' :: cs | 'E' :: cs => (readPower cs).map fun (n, rest) => (some n, rest)
  | cs => some (none, cs)

/-- Reads the digits after the point, if there is one. -/
def readFraction : List Char → Option (Option (List Char) × List Char)
  | '.' :: cs => (readDigits Char.isDigit cs).map fun (digits, rest) => (some digits, rest)
  | cs => some (none, cs)

/-- Reads a number with a fraction or an exponent. One above the largest is refused; one below
the least is negative infinity. -/
def readDecimalFloat (cs : List Char) : Option (Float × List Char) := do
  let (sign, cs) := takeSign cs
  let (whole, cs) ← readDecimalDigits cs
  let (fraction, cs) ← readFraction cs
  let (power, cs) ← readOptionalPower cs
  if fraction.isNone ∧ power.isNone then none
  let digits := fraction.getD []
  let decimal : Number.Decimal := ⟨ofDigits 10 (whole ++ digits), power.getD 0 - digits.length⟩
  let x := if sign = some '-' then -decimal.toFloat else decimal.toFloat
  if x == Number.infinity then none else some (x, cs)

/-- Reads the name of infinity or of the undefined number. -/
def readNamedFloat (cs : List Char) : Option (Float × List Char) :=
  let (sign, cs) := takeSign cs
  let signed (x : Float) : Float := if sign = some '-' then -x else x
  match cs with
  | 'i' :: 'n' :: 'f' :: rest => some (signed Number.infinity, rest)
  | 'n' :: 'a' :: 'n' :: rest => some (signed Number.undefined, rest)
  | _ => none

/-- Reads a moment or a number. -/
def readNumber (cs : List Char) : Option (Toml × List Char) :=
  ((readMoment? cs).map fun (text, rest) => (.moment text, rest)).or
    (((readDecimalFloat cs).map fun (x, rest) => (.float x, rest)).or
      (((readNamedFloat cs).map fun (x, rest) => (.float x, rest)).or
        ((readInteger cs).map fun (n, rest) => (.integer n, rest))))

/-- The rest of the text after a word, if it begins with the word. -/
def afterWord? (word cs : List Char) : Option (List Char) :=
  if word.isPrefixOf cs then some (cs.drop word.length) else none

mutual

/-- Reads a value; the levels left bound the nesting and the fuel all calls. -/
def readValue : Nat → Nat → List Char → Option (Toml × List Char)
  | 0, _, _ => none
  | fuel + 1, levels, cs =>
    match cs with
    | '"' :: _ | '\'' :: _ => (readText cs).map fun (text, rest) => (.string text, rest)
    | '[' :: cs => if levels = 0 then none else readItems fuel (levels - 1) [] cs
    | '\x7b' :: cs =>
      if levels = 0 then none
      else match skipGaps cs with
        | '\x7d' :: cs => some (.table .inline [], cs)
        | cs => readEntries fuel (levels - 1) [] cs
    | 't' :: _ => (afterWord? "true".toList cs).map fun rest => (.bool true, rest)
    | 'f' :: _ => (afterWord? "false".toList cs).map fun rest => (.bool false, rest)
    | cs => readNumber cs

/-- Reads the items of an array up to its closing bracket; a comma may follow the last. -/
def readItems : Nat → Nat → List Toml → List Char → Option (Toml × List Char)
  | 0, _, _, _ => none
  | fuel + 1, levels, read, cs => do
    match ← skipLines cs.length cs with
    | ']' :: cs => return (.array read.reverse, cs)
    | cs =>
      let (item, cs) ← readValue fuel levels cs
      match ← skipLines cs.length cs with
      | ',' :: cs => readItems fuel levels (item :: read) cs
      | ']' :: cs => return (.array (item :: read).reverse, cs)
      | _ => none

/-- Reads the entries of a table between braces up to the closing one. -/
def readEntries : Nat → Nat → TomlEntries → List Char → Option (Toml × List Char)
  | 0, _, _, _ => none
  | fuel + 1, levels, read, cs => do
    let (path, cs) ← readKey deepest cs
    match cs with
    | '=' :: cs =>
      let (value, cs) ← readValue fuel levels (skipGaps cs)
      let read ← TomlEntries.assign path value .inline read
      match skipGaps cs with
      | ',' :: cs => readEntries fuel levels read cs
      | '\x7d' :: cs => return (.table .inline read, cs)
      | _ => none
    | _ => none

end

/-- Reads a statement and the end of its line. -/
def readStatement (cs : List Char) : Option (TomlStatement × List Char) := do
  match cs with
  | '[' :: '[' :: cs =>
    let (path, cs) ← readKey deepest cs
    match cs with
    | ']' :: ']' :: cs => return (.nextTable path, ← endStatement? cs)
    | _ => none
  | '[' :: cs =>
    let (path, cs) ← readKey deepest cs
    match cs with
    | ']' :: cs => return (.table path, ← endStatement? cs)
    | _ => none
  | cs =>
    let (path, cs) ← readKey deepest cs
    match cs with
    | '=' :: cs =>
      let (value, cs) ← readValue (2 * cs.length + 2) deepest (skipGaps cs)
      return (.assign path value, ← endStatement? cs)
    | _ => none

/-- Reads statements up to the end of the text; the fuel bounds the number of lines. -/
def readStatements : Nat → List Char → Option (List TomlStatement)
  | 0, _ => none
  | fuel + 1, cs =>
    match skipGaps cs with
    | [] => some []
    | '#' :: _ => do readStatements fuel (← endStatement? cs)
    | cs =>
      match afterLineEnd? cs with
      | some cs => readStatements fuel cs
      | none => do
        let (statement, cs) ← readStatement cs
        let others ← readStatements fuel cs
        return statement :: others

/-- The document of a text. -/
def read? (text : String) : Option Toml := do
  let cs := match text.toList with
    | '\ufeff' :: cs => cs
    | cs => cs
  Toml.ofStatements? (← readStatements (cs.length + 1) cs)

end CommandGrammar.Toml
