import CommandGrammar.Model

/-!
# Parse trees

A parse tree has a branch for every rule that was used and a leaf for every token.
Read from left to right, its leaves are the tokens of the line.
-/

namespace CommandGrammar

/-- What a token was matched with. -/
inductive LeafKind where
  /-- A literal with the token's text. -/
  | literal
  /-- The value terminal. -/
  | value
deriving DecidableEq, Repr

/-- A matched token. -/
structure Leaf where
  /-- What it was matched with. -/
  kind : LeafKind
  /-- Its text. -/
  text : String
  /-- Its place among the tokens of the line. -/
  index : Nat
deriving DecidableEq, Repr

/-- A part of a parse tree. -/
inductive Tree where
  /-- A matched token. -/
  | leaf (leaf : Leaf)
  /-- A rule and what its production was matched with. -/
  | branch (rule : NodeId) (children : List Tree)
deriving Repr, Inhabited

/-- The parse of a line: the rule of the root and what it was matched with. -/
structure Parse where
  /-- The line. -/
  input : String
  /-- The rule of the root. -/
  rule : NodeId
  /-- What the rule's production was matched with. -/
  children : List Tree
deriving Repr, Inhabited

mutual

/-- The leaves of a tree from left to right. -/
def Tree.leaves : Tree → List Leaf
  | .leaf leaf => [leaf]
  | .branch _ children => leavesOf children

/-- The leaves of several trees from left to right. -/
def leavesOf : List Tree → List Leaf
  | [] => []
  | tree :: rest => tree.leaves ++ leavesOf rest

end

/-- The root as a tree. -/
def Parse.root (parse : Parse) : Tree := .branch parse.rule parse.children

/-- The rules of the branches among trees, in order. -/
def branchRules : List Tree → List NodeId
  | [] => []
  | .leaf _ :: rest => branchRules rest
  | .branch rule _ :: rest => rule :: branchRules rest

/-- The text of the first value leaf among trees. -/
def firstValue? : List Tree → Option String
  | [] => none
  | .leaf leaf :: rest => if leaf.kind = .value then some leaf.text else firstValue? rest
  | .branch .. :: rest => firstValue? rest

end CommandGrammar
