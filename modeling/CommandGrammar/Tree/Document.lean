import CommandGrammar.Json
import CommandGrammar.Tree

/-!
# Parse trees as documents

A branch is written with its rule and children, a leaf with its kind, text and place.
-/

namespace CommandGrammar

/-- The name of a kind of leaf. -/
def LeafKind.name : LeafKind → String
  | .literal => "literal"
  | .value => "value"

/-- The document of a leaf. -/
def Leaf.toJson (leaf : Leaf) : Json :=
  .object [("kind", .string leaf.kind.name), ("text", .string leaf.text),
    ("index", .integer leaf.index)]

mutual

/-- The document of a tree. -/
def Tree.toJson : Tree → Json
  | .leaf leaf => leaf.toJson
  | .branch rule children =>
    .object [("rule", .integer rule), ("children", .array (treesToJson children))]

/-- The documents of trees. -/
def treesToJson : List Tree → List Json
  | [] => []
  | tree :: rest => tree.toJson :: treesToJson rest

end

/-- The document of a parse. -/
def Parse.toJson (parse : Parse) : Json :=
  .object [("input", .string parse.input), ("root", parse.root.toJson)]

end CommandGrammar
