import CommandGrammar.Tree

/-!
# Occurrence rules

At every command of a parse tree the branches of each declared parameter and
subcommand are counted. One that is required has to occur, and one whose count is
fixed has to occur that often or, if it is not required, not at all.
-/

namespace CommandGrammar

/-- A declaration whose occurrences break the rules. -/
structure Violation where
  /-- The declared parameter or subcommand. -/
  node : NodeId
  /-- Its name. -/
  name : String
  /-- How often it occurs. -/
  observed : Nat
deriving DecidableEq, Repr

/-- The wording of a violation. -/
def Violation.message (violation : Violation) : String :=
  "invalid input for '" ++ violation.name ++ "' (#" ++ toString violation.node ++
    "): observed " ++ toString violation.observed ++ " occurrence(s)"

/-- A number of occurrences that a declaration allows. -/
def Node.allows (node : Node) (observed : Nat) : Bool :=
  let missing := node.required && observed == 0
  let miscounted := match node.fixedCount? with
    | some count => observed != count && (node.required || 0 < observed)
    | none => false
  !(missing || miscounted)

namespace Model

/-- The first declaration of a command that the branches under it break. -/
def ownViolation? (model : Model) (command : Node) (children : List Tree) : Option Violation :=
  let rules := branchRules children
  (model.nodesOf command.declared).findSome? fun node =>
    let observed := rules.count node.id
    if node.allows observed then none else some ⟨node.id, node.name, observed⟩

mutual

/-- The first violation in a tree, outer commands before inner ones. Only commands are
looked into. -/
def treeViolation? (model : Model) : Tree → Option Violation
  | .leaf _ => none
  | .branch rule children =>
    match model.node? rule with
    | none => none
    | some node =>
      if node.isCommand then
        (model.ownViolation? node children).or (treesViolation? model children)
      else none

/-- The first violation in several trees. -/
def treesViolation? (model : Model) : List Tree → Option Violation
  | [] => none
  | tree :: rest => (model.treeViolation? tree).or (treesViolation? model rest)

end

/-- The first violation in a parse. -/
def violation? (model : Model) (parse : Parse) : Option Violation :=
  model.treeViolation? parse.root

end Model

end CommandGrammar
