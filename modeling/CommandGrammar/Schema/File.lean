import CommandGrammar.Schema.Document
import CommandGrammar.Yaml.Reader

/-!
# Schemas in files

A schema is read from a file in JSON or in YAML. Members that commands and parameters do
not have are skipped as they are written, so what they hold need only be well-formed.
In YAML a word may stand for a text, so a number may name a command; there records are
never arrays, and the name of a kind of value is never an object.
-/

namespace CommandGrammar

/-- How a format writes schemas. -/
structure SchemaFormat where
  /-- What words and strings stand for. -/
  dialect : Dialect
  /-- The part of a file that holds the document, if the file keeps the rules of the format. -/
  body? : List Char → Option (List Char)
  /-- A word may stand where a text is wanted, and means itself. -/
  wordsAreTexts : Bool
  /-- A record may be an array of its parts, and a name an object. -/
  hasOtherForms : Bool

namespace SchemaFormat

/-- A format for files in JSON. -/
def json : SchemaFormat where
  dialect := Json.dialect
  body? := some
  wordsAreTexts := false
  hasOtherForms := true

/-- A format for files in YAML. -/
def yaml : SchemaFormat where
  dialect := Yaml.dialect
  body? := Yaml.body?
  wordsAreTexts := true
  hasOtherForms := false

variable (format : SchemaFormat)

/-- What stands where a text is wanted. -/
def text? (levels : Nat) : Written → Option Json
  | .word cs =>
    if format.wordsAreTexts then some (.string (String.ofList cs)) else format.dialect.word? cs
  | document => format.dialect.document? levels document

/-- A part of a command or parameter that holds none of these. -/
def part? (levels : Nat) (name : String) (document : Written) : Option Json :=
  match name, document with
  | "name", document => format.text? levels document
  | "description", .word cs =>
    if cs = "null".toList then some .null else format.text? levels (.word cs)
  | "choices", .array items =>
    if levels = 0 then none else (items.mapM (format.text? (levels - 1))).map .array
  | "value_type", .object members =>
    if format.hasOtherForms then format.dialect.document? levels (.object members) else none
  | _, document => format.dialect.document? levels document

/-- The members of a parameter, without those that parameters do not have. -/
def paramMembers? (levels : Nat) :
    List (List Char × Written) → Option (List (String × Json))
  | [] => some []
  | (name, document) :: rest => do
    let name ← format.dialect.text? name
    if Document.paramNames.contains name then
      let first := (name, ← format.part? levels name document)
      return first :: (← paramMembers? levels rest)
    else paramMembers? levels rest

/-- A parameter. -/
def param? : Nat → Written → Option Json
  | levels + 1, .object members => (format.paramMembers? levels members).map .object
  | levels + 1, .array items =>
    if format.hasOtherForms then format.dialect.document? (levels + 1) (.array items) else none
  | _, _ => none

/-- An array of parameters. -/
def params? : Nat → Written → Option Json
  | levels + 1, .array items => (items.mapM (format.param? levels)).map .array
  | _, _ => none

mutual

/-- A command tree. -/
def command? : Nat → Written → Option Json
  | levels + 1, .object members => (commandMembers? levels members).map .object
  | levels + 1, .array items =>
    if format.hasOtherForms then (commandItems? levels Document.commandNames items).map .array
    else none
  | _, _ => none

/-- The members of a command, without those that commands do not have. -/
def commandMembers? (levels : Nat) :
    List (List Char × Written) → Option (List (String × Json))
  | [] => some []
  | (name, document) :: rest => do
    let name ← format.dialect.text? name
    if Document.commandNames.contains name then
      let first := (name, ← commandPart? levels name document)
      return first :: (← commandMembers? levels rest)
    else commandMembers? levels rest

/-- The parts of a command in an array. -/
def commandItems? (levels : Nat) : List String → List Written → Option (List Json)
  | _, [] => some []
  | [], _ :: _ => none
  | name :: names, document :: rest => do
    let first ← commandPart? levels name document
    return first :: (← commandItems? levels names rest)

/-- A part of a command. -/
def commandPart? (levels : Nat) (name : String) (document : Written) : Option Json :=
  if name = "params" then format.params? levels document
  else if name = "subcommands" then commands? levels document
  else format.part? levels name document

/-- An array of command trees. -/
def commands? : Nat → Written → Option Json
  | levels + 1, .array items => (commandTrees? levels items).map .array
  | _, _ => none

/-- The items of an array of command trees. -/
def commandTrees? (levels : Nat) : List Written → Option (List Json)
  | [] => some []
  | item :: rest => do
    let first ← command? levels item
    return first :: (← commandTrees? levels rest)

end

/-- The schema in the text of a file. -/
def read? (text : String) : Option Command := do
  let written ← Written.read? (← format.body? text.toList)
  let document ← format.command? format.dialect.levels written
  (Document.command document).toOption

end SchemaFormat

end CommandGrammar
