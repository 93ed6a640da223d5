import CommandGrammar.Grammar.Language
import CommandGrammar.Tree

/-!
# Parse trees as derivations

A tree is a derivation if the children of each of its branches match the production of
the branch's rule: a literal or the value terminal is matched by a leaf of its kind, a
rule by a branch, and nested expressions leave no branch of their own. The tokens of
such a tree are derived by its rule, so a derivation is evidence of membership in the
language of the grammar.
-/

namespace CommandGrammar

/-- The sequences of trees that match an expression; what is inside a branch is left open. -/
inductive Expr.Matches : Expr → List Tree → Prop where
  /-- A literal is matched by a literal leaf with its text. -/
  | literal (text : String) (index : Nat) :
      Matches (.literal text) [.leaf ⟨.literal, text, index⟩]
  /-- The value terminal is matched by a value leaf. -/
  | value (text : String) (index : Nat) : Matches .value [.leaf ⟨.value, text, index⟩]
  /-- A rule is matched by a branch of it. -/
  | rule (id : NodeId) (children : List Tree) : Matches (.rule id) [.branch id children]
  /-- The empty sequence is matched by no tree. -/
  | seqNil : Matches (.seq []) []
  /-- A sequence is matched item by item. -/
  | seqCons {item : Expr} {rest : List Expr} {first others : List Tree}
      (head : Matches item first) (tail : Matches (.seq rest) others) :
      Matches (.seq (item :: rest)) (first ++ others)
  /-- A choice is matched like one of its items. -/
  | alt {items : List Expr} {item : Expr} {trees : List Tree} (member : item ∈ items)
      (chosen : Matches item trees) : Matches (.alt items) trees
  /-- An option is matched by no tree. -/
  | absent (inner : Expr) : Matches (.optional inner) []
  /-- An option is matched like what it holds. -/
  | present {inner : Expr} {trees : List Tree} (body : Matches inner trees) :
      Matches (.optional inner) trees
  /-- A repetition is matched part by part, the number of parts being within its bounds. -/
  | repetition {inner : Expr} {min : Nat} {max : Option Nat} (parts : List (List Tree))
      (least : min ≤ parts.length) (most : ∀ bound ∈ max, parts.length ≤ bound)
      (each : ∀ part ∈ parts, Matches inner part) :
      Matches (.repetition inner min max) parts.flatten

/-- Every branch of a tree is matched with the production of its rule. -/
inductive Grammar.Admits (grammar : Grammar) : Tree → Prop where
  /-- A leaf has no branch. -/
  | leaf (leaf : Leaf) : Admits grammar (.leaf leaf)
  /-- The children of the branch match the production, and so it goes on inside them. -/
  | branch {rule : NodeId} {children : List Tree} {production : Production}
      (found : grammar.production? rule = some production)
      (matched : production.expr.Matches children)
      (inner : ∀ child ∈ children, Admits grammar child) : Admits grammar (.branch rule children)

/-- The tokens of trees from left to right. -/
def tokensOf (trees : List Tree) : List String := (leavesOf trees).map Leaf.text

/-- The leaves of trees are those of the first ones and those of the others. -/
theorem leavesOf_append (first others : List Tree) :
    leavesOf (first ++ others) = leavesOf first ++ leavesOf others := by
  induction first with
  | nil => simp [leavesOf]
  | cons tree rest ih => simp [leavesOf, ih, List.append_assoc]

/-- The tokens of trees are those of the first ones and those of the others. -/
theorem tokensOf_append (first others : List Tree) :
    tokensOf (first ++ others) = tokensOf first ++ tokensOf others := by
  simp [tokensOf, leavesOf_append]

/-- The tokens of trees in groups are those of the groups. -/
theorem tokensOf_flatten (parts : List (List Tree)) :
    tokensOf parts.flatten = (parts.map tokensOf).flatten := by
  induction parts with
  | nil => simp [tokensOf, leavesOf]
  | cons part rest ih => simp [tokensOf_append, ih]

/-- An expression derives the tokens of trees that match it, if every rule derives those of its
branches among them. -/
theorem Expr.Matches.derives {grammar : Grammar} {expr : Expr} {trees : List Tree}
    (matched : expr.Matches trees)
    (rules : ∀ id children, Tree.branch id children ∈ trees →
      grammar.Derives (.rule id) (tokensOf children)) :
    grammar.Derives expr (tokensOf trees) := by
  induction matched with
  | literal text index => exact .literal text
  | value text index => exact .value text
  | rule id children =>
    have inside := rules id children List.mem_cons_self
    simpa [tokensOf, leavesOf, Tree.leaves] using inside
  | seqNil => exact .seqNil
  | seqCons head tail headIH tailIH =>
    rw [tokensOf_append]
    exact .seqCons (headIH fun id children member => rules id children (List.mem_append_left _ member))
      (tailIH fun id children member => rules id children (List.mem_append_right _ member))
  | alt member chosen ih => exact .alt member (ih rules)
  | absent inner => exact .absent inner
  | present body ih => exact .present (ih rules)
  | repetition parts least most each ih =>
    rw [tokensOf_flatten]
    refine .repetition _ (by simpa using least) (by simpa using most) fun part member => ?_
    obtain ⟨trees, belongs, rfl⟩ := List.mem_map.1 member
    exact ih trees belongs fun id children inside =>
      rules id children (List.mem_flatten.2 ⟨trees, belongs, inside⟩)

/-- The rule of a derivation derives its tokens. -/
theorem Grammar.Admits.derives {grammar : Grammar} {rule : NodeId} {children : List Tree}
    (admitted : grammar.Admits (.branch rule children)) :
    grammar.Derives (.rule rule) (tokensOf children) := by
  generalize same : Tree.branch rule children = tree at admitted
  induction admitted generalizing rule children with
  | leaf => contradiction
  | branch found matched inner ih =>
    obtain ⟨rfl, rfl⟩ := Tree.branch.inj same
    exact .rule found (matched.derives fun id children member => ih _ member rfl)

end CommandGrammar
