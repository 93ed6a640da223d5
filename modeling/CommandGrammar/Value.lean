import CommandGrammar.Keyed
import CommandGrammar.Text.Split

/-!
# Values

A value is what a parameter holds once its text has been decoded: a scalar, a
list of values or a map from names to values. Maps keep their entries in key
order. Nested maps are addressed by dotted paths.
-/

namespace CommandGrammar

/-- A decoded value. -/
inductive Value where
  /-- A truth value. -/
  | bool (b : Bool)
  /-- A 64-bit integer. -/
  | integer (n : Int64)
  /-- A binary64 number. -/
  | float (x : Float)
  /-- A text. -/
  | string (text : String)
  /-- Values in a sequence. -/
  | list (items : List Value)
  /-- Values under names, in the order of the names. -/
  | map (entries : List (String × Value))
deriving Inhabited

namespace Value

/-- The text of a text. -/
def string? : Value → Option String
  | .string text => some text
  | _ => none

/-- The number of an integer. -/
def integer? : Value → Option Int64
  | .integer n => some n
  | _ => none

/-- The number of a number, an integer being rounded to binary64. -/
def float? : Value → Option Float
  | .float x => some x
  | .integer n => some n.toFloat
  | _ => none

/-- The truth value of a truth value. -/
def bool? : Value → Option Bool
  | .bool b => some b
  | _ => none

/-- The items of a list. -/
def list? : Value → Option (List Value)
  | .list items => some items
  | _ => none

/-- The entries of a map. -/
def map? : Value → Option (Keyed String Value)
  | .map entries => some entries
  | _ => none

/-- The value reached from a value by keys, each one in a map. -/
def at? (value : Value) : List String → Option Value
  | [] => some value
  | key :: keys => do
    let entries ← value.map?
    (← Keyed.find? key entries).at? keys

/-- The value at a dotted path. -/
def path? (value : Value) (path : String) : Option Value := value.at? (Text.segments path)

mutual

/-- Equality of values in which numbers are compared as numbers: the undefined number
differs from itself, the two zeros are one, and an integer equals no binary64 number. -/
def same : Value → Value → Bool
  | .bool left, .bool right => left == right
  | .integer left, .integer right => left == right
  | .float left, .float right => left == right
  | .string left, .string right => left == right
  | .list left, .list right => sameItems left right
  | .map left, .map right => sameEntries left right
  | _, _ => false

/-- Equality of lists, item by item. -/
def sameItems : List Value → List Value → Bool
  | [], [] => true
  | left :: lefts, right :: rights => left.same right && sameItems lefts rights
  | _, _ => false

/-- Equality of maps, entry by entry. -/
def sameEntries : List (String × Value) → List (String × Value) → Bool
  | [], [] => true
  | (leftKey, left) :: lefts, (rightKey, right) :: rights =>
    leftKey == rightKey && left.same right && sameEntries lefts rights
  | _, _ => false

end

end Value

end CommandGrammar
