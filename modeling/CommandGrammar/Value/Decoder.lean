import CommandGrammar.Value
import CommandGrammar.Number.Decimal

/-!
# Decoding text

A parameter's decoder turns the text of a token into a value. It first checks the
allowed texts, if there are any, and then reads the text as the declared kind of
value or by a reader of the caller's own.
-/

namespace CommandGrammar

/-- The kinds of value that a parameter can declare. -/
inductive ValueKind where
  /-- Any text. -/
  | string
  /-- A 64-bit integer. -/
  | integer
  /-- A binary64 number. -/
  | float
  /-- A truth value. -/
  | bool
  /-- A path of the file system, kept as text. -/
  | path
deriving DecidableEq, Repr, Inhabited

/-- Why a text has no value. -/
inductive DecodeFault where
  /-- It is no integer. -/
  | integer (fault : Number.IntegerFault)
  /-- It is no number. -/
  | float (fault : Number.FloatFault)
  /-- It is no truth value. -/
  | bool
  /-- It is not among the allowed texts. -/
  | choice (allowed : List String)
  /-- The caller's reader refused it. -/
  | refused (reason : String)
deriving DecidableEq, Repr

/-- The wording of a fault. -/
def DecodeFault.message : DecodeFault → String
  | .integer fault => "expected an integer: " ++ fault.message
  | .float fault => "expected a number: " ++ fault.message
  | .bool => "expected a boolean"
  | .choice allowed => "expected one of: " ++ Text.join ", " allowed
  | .refused reason => reason

/-- The truth value that a word stands for, whatever the case of its ASCII letters. -/
def readBool (text : String) : Option Bool :=
  let word := String.ofList (text.toList.map Char.toLower)
  if ["true", "yes", "on", "1"].contains word then some true
  else if ["false", "no", "off", "0"].contains word then some false
  else none

/-- Reads a text as a kind of value. -/
def ValueKind.decode (kind : ValueKind) (raw : String) : Except DecodeFault Value :=
  match kind with
  | .string | .path => .ok (.string raw)
  | .integer => match Number.readInt64 raw with
    | .ok n => .ok (.integer n)
    | .error fault => .error (.integer fault)
  | .float => match Number.readFloat raw with
    | .ok x => .ok (.float x)
    | .error fault => .error (.float fault)
  | .bool => match readBool raw with
    | some b => .ok (.bool b)
    | none => .error .bool

/-- A reader of the caller's own, with its reason for a refusal. -/
abbrev Reader := String → Except String Value

/-- How the text of one parameter is decoded. -/
structure Decoder where
  /-- The declared kind of value. -/
  kind : ValueKind := .string
  /-- The allowed texts; none means any. -/
  choices : List String := []
  /-- A reader that stands in for the kind. -/
  reader : Option Reader := none
deriving Inhabited

namespace Decoder

/-- Decodes a text. -/
def decode (decoder : Decoder) (raw : String) : Except DecodeFault Value :=
  if !decoder.choices.isEmpty && !decoder.choices.contains raw then
    .error (.choice decoder.choices)
  else match decoder.reader with
    | some read => (read raw).mapError .refused
    | none => decoder.kind.decode raw

mutual

/-- Decodes the texts of a declared default, at any depth of lists; other values stay. -/
def decodeDefault (decoder : Decoder) : Value → Except DecodeFault Value
  | .string raw => decoder.decode raw
  | .list items => (decodeDefaults decoder items).map .list
  | .bool b => .ok (.bool b)
  | .integer n => .ok (.integer n)
  | .float x => .ok (.float x)
  | .map entries => .ok (.map entries)

/-- Decodes the items of a list up to the first fault. -/
def decodeDefaults (decoder : Decoder) : List Value → Except DecodeFault (List Value)
  | [] => .ok []
  | item :: rest => do
    let item ← decoder.decodeDefault item
    let rest ← decodeDefaults decoder rest
    return item :: rest

end

end Decoder

end CommandGrammar
