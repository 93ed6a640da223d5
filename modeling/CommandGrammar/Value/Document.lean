import CommandGrammar.Value
import CommandGrammar.Json

/-!
# Values as JSON

Values are written without tags and read back by the shape of the document. A number
without point and exponent is an integer if it fits 64 signed bits, and null is no
value. A name that is repeated in an object keeps its last document.
-/

namespace CommandGrammar

namespace Value

mutual

/-- The document of a value. -/
def toJson : Value → Json
  | .bool b => .bool b
  | .integer n => .integer n.toInt
  | .float x => .float x
  | .string text => .string text
  | .list items => .array (itemsToJson items)
  | .map entries => .object (entriesToJson entries)

/-- The documents of items. -/
def itemsToJson : List Value → List Json
  | [] => []
  | item :: rest => item.toJson :: itemsToJson rest

/-- The members of entries. -/
def entriesToJson : List (String × Value) → List (String × Json)
  | [] => []
  | (key, value) :: rest => (key, value.toJson) :: entriesToJson rest

end

mutual

/-- The value of a document. -/
def ofJson? : Json → Option Value
  | .null => none
  | .bool b => some (.bool b)
  | .integer n =>
    if Int64.minValue.toInt ≤ n ∧ n ≤ Int64.maxValue.toInt then some (.integer (Int64.ofInt n))
    else some (.float (Float.ofInt n))
  | .float x => some (.float x)
  | .string text => some (.string text)
  | .array items => (itemsOfJson? items).map .list
  | .object members => (entriesOfJson? members).map fun entries => .map (Keyed.ofEntries entries)

/-- The values of items, if all have one. -/
def itemsOfJson? : List Json → Option (List Value)
  | [] => some []
  | item :: rest => do
    let value ← ofJson? item
    let values ← itemsOfJson? rest
    return value :: values

/-- The values of members, if all have one. -/
def entriesOfJson? : List (String × Json) → Option (List (String × Value))
  | [] => some []
  | (name, document) :: rest => do
    let value ← ofJson? document
    let values ← entriesOfJson? rest
    return (name, value) :: values

end

end Value

end CommandGrammar
