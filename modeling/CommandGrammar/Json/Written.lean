import CommandGrammar.Json
import CommandGrammar.Json.Numeral

/-!
# JSON as it is written

The reader of this module knows the grammar alone: no comments, no trailing commas,
nothing after the document. Words and strings stay as they are written, and a dialect
says afterwards what they stand for and how deep documents may nest. So a part of a
document that nobody asks for need only be well-formed.
-/

namespace CommandGrammar

/-- A document as it is written. -/
inductive Written where
  /-- A null, a truth value or a number. -/
  | word (cs : List Char)
  /-- What stands between the quotes of a string, escapes included. -/
  | quoted (cs : List Char)
  /-- Documents between brackets. -/
  | array (items : List Written)
  /-- Documents under names between braces. -/
  | object (members : List (List Char × Written))
deriving Inhabited

namespace Written

/-- A character that may stand between tokens. -/
def isSpace (c : Char) : Bool := c == ' ' || c == '\n' || c == '\t' || c == '\x0d'

/-- Drops the characters between tokens. -/
def skipSpace (cs : List Char) : List Char := cs.dropWhile isSpace

/-- A character of a null, a truth value or a number. -/
def inWord (c : Char) : Bool := c.isAlphanum || c == '+' || c == '-' || c == '.'

/-- The characters are a null, a truth value or a number. -/
def isWord (cs : List Char) : Bool :=
  cs == "null".toList || cs == "true".toList || cs == "false".toList ||
    (Json.Numeral.ofWord? cs).isSome

/-- The number of four hexadecimal digits. -/
def codeUnit? (a b c d : Char) : Option Nat :=
  [a, b, c, d].foldlM (fun n digit => (Number.hexDigit? digit).map (16 * n + ·)) 0

/-- The character of a one-letter escape. -/
def escaped? : Char → Option Char
  | '"' => some '"'
  | '\\' => some '\\'
  | '/' => some '/'
  | 'b' => some '\x08'
  | 'f' => some '\x0c'
  | 'n' => some '\n'
  | 'r' => some '\x0d'
  | 't' => some '\t'
  | _ => none

/-- Reads a string up to its closing quote; `read` holds the characters so far, the latest
first. -/
def readQuoted (read : List Char) : List Char → Option (List Char × List Char)
  | [] => none
  | '"' :: cs => some (read.reverse, cs)
  | '\\' :: 'u' :: a :: b :: c :: d :: cs =>
    if (codeUnit? a b c d).isSome then readQuoted (d :: c :: b :: a :: 'u' :: '\\' :: read) cs
    else none
  | '\\' :: e :: cs => if (escaped? e).isSome then readQuoted (e :: '\\' :: read) cs else none
  | c :: cs => if c.toNat < 0x20 ∨ c = '\\' then none else readQuoted (c :: read) cs

mutual

/-- Reads a document; the fuel bounds all calls. -/
def readValue : Nat → List Char → Option (Written × List Char)
  | 0, _ => none
  | fuel + 1, cs =>
    match skipSpace cs with
    | '"' :: cs => (readQuoted [] cs).map fun (text, rest) => (.quoted text, rest)
    | '[' :: cs =>
      match skipSpace cs with
      | ']' :: cs => some (.array [], cs)
      | cs => readItems fuel [] cs
    | '\x7b' :: cs =>
      match skipSpace cs with
      | '\x7d' :: cs => some (.object [], cs)
      | cs => readMembers fuel [] cs
    | cs =>
      let word := cs.takeWhile inWord
      if isWord word then some (.word word, cs.dropWhile inWord) else none

/-- Reads the items of an array up to its closing bracket. -/
def readItems : Nat → List Written → List Char → Option (Written × List Char)
  | 0, _, _ => none
  | fuel + 1, read, cs => do
    let (item, cs) ← readValue fuel cs
    match skipSpace cs with
    | ',' :: cs => readItems fuel (item :: read) cs
    | ']' :: cs => return (.array (item :: read).reverse, cs)
    | _ => none

/-- Reads the members of an object up to its closing brace. -/
def readMembers : Nat → List (List Char × Written) → List Char → Option (Written × List Char)
  | 0, _, _ => none
  | fuel + 1, read, cs => do
    match skipSpace cs with
    | '"' :: cs =>
      let (name, cs) ← readQuoted [] cs
      match skipSpace cs with
      | ':' :: cs =>
        let (value, cs) ← readValue fuel cs
        match skipSpace cs with
        | ',' :: cs => readMembers fuel ((name, value) :: read) cs
        | '\x7d' :: cs => return (.object ((name, value) :: read).reverse, cs)
        | _ => none
      | _ => none
    | _ => none

end

/-- The document that a text holds. -/
def read? (cs : List Char) : Option Written := do
  let (document, rest) ← readValue (2 * cs.length + 2) cs
  if (skipSpace rest).isEmpty then some document else none

end Written

/-- What words and strings stand for, and how deep documents may nest. -/
structure Dialect where
  /-- The document that a word stands for. -/
  word? : List Char → Option Json
  /-- The text that a string stands for. -/
  text? : List Char → Option String
  /-- The greatest number of arrays and objects inside each other. -/
  levels : Nat

namespace Dialect

mutual

/-- What a document stands for, if it nests at most as deep as the levels left. -/
def document? (dialect : Dialect) : Nat → Written → Option Json
  | _, .word cs => dialect.word? cs
  | _, .quoted cs => (dialect.text? cs).map .string
  | 0, .array _ | 0, .object _ => none
  | levels + 1, .array items => (dialect.items? levels items).map .array
  | levels + 1, .object members => (dialect.members? levels members).map .object

/-- What items stand for. -/
def items? (dialect : Dialect) (levels : Nat) : List Written → Option (List Json)
  | [] => some []
  | item :: rest => do
    let first ← dialect.document? levels item
    return first :: (← dialect.items? levels rest)

/-- What members stand for. -/
def members? (dialect : Dialect) (levels : Nat) :
    List (List Char × Written) → Option (List (String × Json))
  | [] => some []
  | (name, document) :: rest => do
    let first := (← dialect.text? name, ← dialect.document? levels document)
    return first :: (← dialect.members? levels rest)

end

end Dialect

end CommandGrammar
