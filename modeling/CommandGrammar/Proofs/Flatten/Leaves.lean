import Mathlib
import CommandGrammar.Tree.Derivation
import CommandGrammar.Proofs.Chart.Viable
import CommandGrammar.Proofs.Flatten.Language

/-!
# The leaves of derivations

The leaves of the derivations of a node are exactly what its nonterminal yields in the flat
rules. This refines the agreement of the two languages: of each token it is also kept
whether a literal or the value terminal matched it.
-/

namespace CommandGrammar

/-- Leaves as atoms: a terminal stands for a leaf of its kind, and the rule of a node for what is
given. -/
def leafAtoms (rule : NodeId → List Leaf → Prop) : Atoms Leaf where
  literal text leaves := ∃ index, leaves = [⟨.literal, text, index⟩]
  value leaves := ∃ text index, leaves = [⟨.value, text, index⟩]
  rule := rule

/-- The leaves of trees in groups are those of the groups. -/
theorem leavesOf_flatten (parts : List (List Tree)) :
    leavesOf parts.flatten = (parts.map leavesOf).flatten := by
  induction parts with
  | nil => rfl
  | cons part rest ih => rw [List.flatten_cons, leavesOf_append, ih, List.map_cons, List.flatten_cons]

/-- Trees that match an expression have leaves that it denotes, if rules stand for the leaves of the
branches among the trees. -/
theorem Expr.Matches.denotes {rule : NodeId → List Leaf → Prop} {expr : Expr} {trees : List Tree}
    (matched : expr.Matches trees)
    (rules : ∀ id children, Tree.branch id children ∈ trees → rule id (leavesOf children)) :
    expr.Denotes (leafAtoms rule) (leavesOf trees) := by
  induction matched with
  | literal text index => exact .literal ⟨index, rfl⟩
  | value text index => exact .value ⟨text, index, rfl⟩
  | rule id children =>
    have inside := rules id children List.mem_cons_self
    have leaves : leavesOf [Tree.branch id children] = leavesOf children := by
      simp [leavesOf, Tree.leaves]
    rw [leaves]
    exact .rule inside
  | seqNil => exact .seqNil
  | seqCons head tail headIH tailIH =>
    rw [leavesOf_append]
    exact .seqCons (headIH fun id children member => rules id children (List.mem_append_left _ member))
      (tailIH fun id children member => rules id children (List.mem_append_right _ member))
  | alt member chosen ih => exact .alt member (ih rules)
  | absent inner => exact .absent inner
  | present body ih => exact .present (ih rules)
  | repetition parts least most each ih =>
    rw [leavesOf_flatten]
    refine .repetition _ (by simpa using least) (by simpa using most) fun part member => ?_
    obtain ⟨trees, belongs, rfl⟩ := List.mem_map.1 member
    exact ih trees belongs fun id children inside =>
      rules id children (List.mem_flatten.2 ⟨trees, belongs, inside⟩)

namespace Grammar

variable {grammar : Grammar}

/-- Symbols yield the leaves that they denote, if rules stand for what their nonterminals yield. -/
theorem yields_of_denotes {rules : Rules} {rule : NodeId → Nat} {symbols : List Symbol}
    {leaves : List Leaf} (denoted : rules.Denotes rule
      (leafAtoms fun id => rules.Yields [.nonterminal (rule id)]) symbols leaves) :
    rules.Yields symbols leaves := by
  induction denoted with
  | nil => exact .nil
  | literal stands _ ih =>
    obtain ⟨index, rfl⟩ := stands
    exact .terminal (if_pos rfl) ih
  | value stands _ ih =>
    obtain ⟨text, index, rfl⟩ := stands
    exact .terminal rfl ih
  | named _ stands _ ih => exact stands.append ih
  | nested _ member _ _ bodyIH tailIH => exact .nonterminal member bodyIH tailIH

/-- The nonterminal of a node yields the leaves of each derivation of the node. -/
theorem Admits.yields (closed : grammar.isClosed = true) (bounded : grammar.isBounded = true)
    {id : NodeId} {children : List Tree} (admitted : grammar.Admits (.branch id children)) :
    (Rules.ofGrammar grammar).Yields [.nonterminal (grammar.number id)] (leavesOf children) := by
  generalize same : Tree.branch id children = tree at admitted
  induction admitted generalizing id children with
  | leaf => contradiction
  | branch found matched inner ih =>
    obtain ⟨rfl, rfl⟩ := Tree.branch.inj same
    have denoted := matched.denotes fun id children member => ih _ member rfl
    obtain ⟨symbols, member, stands⟩ := (alternatives_stand closed bounded found _ _).2 denoted
    exact Rules.yields_nonterminal_iff.2 ⟨symbols, member, yields_of_denotes stands⟩

end Grammar

end CommandGrammar
