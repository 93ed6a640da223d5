/-!
# JSON documents

Documents keep the members of an object in written order, repetitions included:
whether a repetition is an error is for the reader of the object to say.
-/

namespace CommandGrammar

/-- A JSON document. -/
inductive Json where
  /-- The null value. -/
  | null
  /-- A truth value. -/
  | bool (b : Bool)
  /-- A number without point and exponent that fits 64 bits, signed or not. -/
  | integer (n : Int)
  /-- Any other number. -/
  | float (x : Float)
  /-- A text. -/
  | string (text : String)
  /-- Documents in a sequence. -/
  | array (items : List Json)
  /-- Documents under names. -/
  | object (members : List (String × Json))
deriving Inhabited

namespace Json

/-- The document under a name in an object; of several the last. -/
def member? (name : String) : Json → Option Json
  | .object members => (members.reverse.find? (·.1 == name)).map Prod.snd
  | _ => none

/-- The text of a text. -/
def string? : Json → Option String
  | .string text => some text
  | _ => none

/-- The items of an array. -/
def array? : Json → Option (List Json)
  | .array items => some items
  | _ => none

/-- The truth value of a truth value. -/
def bool? : Json → Option Bool
  | .bool b => some b
  | _ => none

/-- The number of an integer that is not negative. -/
def natural? : Json → Option Nat
  | .integer (.ofNat n) => some n
  | _ => none

end Json

end CommandGrammar
