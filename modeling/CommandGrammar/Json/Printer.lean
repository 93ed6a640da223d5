import CommandGrammar.Json
import CommandGrammar.Number.Notation
import CommandGrammar.Text.Split

/-!
# Writing JSON

Documents are written indented by two blanks, one member or item a line; empty
arrays and objects stay on one line. Of the characters only the quote, the
backslash and the controls below the blank are escaped.
-/

namespace CommandGrammar.Json

/-- A lower-case hexadecimal digit. -/
def hexDigit (n : Nat) : Char := Nat.digitChar n

/-- A character inside a string. -/
def escape (c : Char) : List Char :=
  if c = '"' then ['\\', '"']
  else if c = '\\' then ['\\', '\\']
  else if c = '\x08' then ['\\', 'b']
  else if c = '\x0c' then ['\\', 'f']
  else if c = '\n' then ['\\', 'n']
  else if c = '\x0d' then ['\\', 'r']
  else if c = '\t' then ['\\', 't']
  else if c.toNat < 0x20 then
    ['\\', 'u', '0', '0', hexDigit (c.toNat / 16), hexDigit (c.toNat % 16)]
  else [c]

/-- A string with its quotes. -/
def quoted (text : String) : String :=
  "\"" ++ String.ofList (text.toList.flatMap escape) ++ "\""

/-- A new line at a level of nesting. -/
def newline (level : Nat) : String := String.ofList ('\n' :: List.replicate (2 * level) ' ')

mutual

/-- The text of a document at a level of nesting. -/
def indented (level : Nat) : Json → String
  | .null => "null"
  | .bool b => if b then "true" else "false"
  | .integer n => toString n
  | .float x => Number.jsonStyle.write x
  | .string text => quoted text
  | .array [] => "[]"
  | .array items => "[" ++ indentedItems (level + 1) items ++ newline level ++ "]"
  | .object [] => "\x7b\x7d"
  | .object members => "\x7b" ++ indentedMembers (level + 1) members ++ newline level ++ "\x7d"

/-- The texts of items, each on a new line. -/
def indentedItems (level : Nat) : List Json → String
  | [] => ""
  | [item] => newline level ++ item.indented level
  | item :: rest => newline level ++ item.indented level ++ "," ++ indentedItems level rest

/-- The texts of members, each on a new line. -/
def indentedMembers (level : Nat) : List (String × Json) → String
  | [] => ""
  | [(name, value)] => newline level ++ quoted name ++ ": " ++ value.indented level
  | (name, value) :: rest =>
    newline level ++ quoted name ++ ": " ++ value.indented level ++ "," ++
      indentedMembers level rest

end

/-- The indented text of a document. -/
def pretty (document : Json) : String := document.indented 0

mutual

/-- The text of a document on one line without blanks. -/
def compact : Json → String
  | .null => "null"
  | .bool b => if b then "true" else "false"
  | .integer n => toString n
  | .float x => Number.jsonStyle.write x
  | .string text => quoted text
  | .array items => "[" ++ Text.join "," (compactItems items) ++ "]"
  | .object members => "\x7b" ++ Text.join "," (compactMembers members) ++ "\x7d"

/-- The texts of items. -/
def compactItems : List Json → List String
  | [] => []
  | item :: rest => item.compact :: compactItems rest

/-- The texts of members. -/
def compactMembers : List (String × Json) → List String
  | [] => []
  | (name, value) :: rest => (quoted name ++ ":" ++ value.compact) :: compactMembers rest

end

end CommandGrammar.Json
