import CommandGrammar.Model
import CommandGrammar.Keyed

/-!
# Grammars

A grammar has one production for each node it knows, in the order of the node
numbers. An expression derives sequences of tokens: a literal derives itself, the
value terminal any single token, and a rule what its production derives.
-/

namespace CommandGrammar

/-- The right-hand side of a production. -/
inductive Expr where
  /-- One token with this text. -/
  | literal (text : String)
  /-- Any one token. -/
  | value
  /-- What the production of a node derives. -/
  | rule (id : NodeId)
  /-- One after the other. -/
  | seq (items : List Expr)
  /-- One of several; earlier ones are preferred. -/
  | alt (items : List Expr)
  /-- Once or not at all. -/
  | optional (inner : Expr)
  /-- At least a number of times and, if there is a bound, at most another number of times. -/
  | repetition (inner : Expr) (min : Nat) (max : Option Nat)
deriving Repr, Inhabited

/-- The choice of several expressions; a single one stands for itself. -/
def Expr.choice : List Expr → Expr
  | [item] => item
  | items => .alt items

/-- A named rule. -/
structure Production where
  /-- The node that it derives. -/
  id : NodeId
  /-- Its name in listings. -/
  name : String
  /-- Its right-hand side. -/
  expr : Expr
deriving Repr, Inhabited

/-- Productions in the order of their nodes, and the node to derive. -/
structure Grammar where
  /-- The productions. -/
  productions : List Production
  /-- The node to derive. -/
  start : NodeId
deriving Repr, Inhabited

mutual

/-- The nodes that an expression refers to. -/
def Expr.references : Expr → List NodeId
  | .literal _ | .value => []
  | .rule id => [id]
  | .seq items | .alt items => referencesOf items
  | .optional inner => inner.references
  | .repetition inner _ _ => inner.references

/-- The nodes that several expressions refer to. -/
def referencesOf : List Expr → List NodeId
  | [] => []
  | item :: rest => item.references ++ referencesOf rest

end

namespace Grammar

/-- The production of a node. -/
def production? (grammar : Grammar) (id : NodeId) : Option Production :=
  grammar.productions.find? (·.id == id)

/-- The nodes that have a production. -/
def ids (grammar : Grammar) : List NodeId := grammar.productions.map Production.id

/-- The start node and every node referred to have a production. -/
def isClosed (grammar : Grammar) : Bool :=
  grammar.ids.contains grammar.start &&
    grammar.productions.all fun production =>
      production.expr.references.all grammar.ids.contains

/-- Number of productions. -/
def size (grammar : Grammar) : Nat := grammar.productions.length

/-- The closed grammar of hand-written productions, of which the last one for a node counts. -/
def ofProductions? (start : NodeId) (productions : List Production) : Option Grammar :=
  let ordered := Keyed.ofEntries (productions.map fun production => (production.id, production))
  let grammar : Grammar := ⟨ordered.map Prod.snd, start⟩
  if grammar.isClosed then some grammar else none

end Grammar

end CommandGrammar
