import CommandGrammar.Number.Notation
import CommandGrammar.Yaml.Scalar

/-!
# Writing YAML

The same documents as in JSON, written in block style: a member or item a line,
members of an inner object indented by two blanks, items of an inner array at the
level of its name. A name of several lines or of more than 128 bytes stands after a
question mark, and its document after a colon on the next line.
-/

namespace CommandGrammar.Yaml

/-- The end of a line, unless the text has just ended one. -/
def lineEnd (text : String) : String :=
  if text.toList.getLast?.any isBreak then "" else "\n"

/-- Texts on lines of their own, all at one column. The first one begins where it stands. -/
def stacked (column : Nat) : List String → String
  | [] => ""
  | [text] => text
  | text :: rest =>
    text ++ lineEnd text ++ String.ofList (indentation column) ++ stacked column rest

/-- A name that may stand before its colon. -/
def isSimpleName (name : String) : Bool :=
  name.utf8ByteSize ≤ 128 && !name.toList.any isBreak

mutual

/-- The text of a document whose lines begin at a column, the first one there already. -/
def block (column : Nat) : Json → String
  | .null => "null"
  | .bool b => if b then "true" else "false"
  | .integer n => toString n
  | .float x => Number.yamlStyle.write x
  | .string text => scalar column text
  | .array [] => "[]"
  | .array items => stacked column (itemBlocks column items)
  | .object [] => "\x7b\x7d"
  | .object members => stacked column (memberBlocks column members)

/-- The texts of items. -/
def itemBlocks (column : Nat) : List Json → List String
  | [] => []
  | item :: rest => ("- " ++ block (column + 2) item) :: itemBlocks column rest

/-- The texts of members. -/
def memberBlocks (column : Nat) : List (String × Json) → List String
  | [] => []
  | (name, document) :: rest =>
    (if isSimpleName name then scalar (column + 2) name ++ ":" ++ besideName column document
      else stacked column ["? " ++ scalar (column + 2) name, ": " ++ block (column + 2) document]) ::
      memberBlocks column rest

/-- The text of a document after its name: a scalar on the same line, anything else below. -/
def besideName (column : Nat) : Json → String
  | .object (first :: rest) =>
    "\n" ++ String.ofList (indentation (column + 2)) ++
      stacked (column + 2) (memberBlocks (column + 2) (first :: rest))
  | .array (first :: rest) =>
    "\n" ++ String.ofList (indentation column) ++
      stacked column (itemBlocks column (first :: rest))
  | document => " " ++ block (column + 2) document

end

/-- The text of a document, without a line end after the last line. -/
def text (document : Json) : String := block 0 document

end CommandGrammar.Yaml
