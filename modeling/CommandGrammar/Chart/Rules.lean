import CommandGrammar.Grammar
import CommandGrammar.Tree

/-!
# Flat rules

For chart parsing a grammar is flattened: every production and every nested
expression becomes a nonterminal with a list of alternatives, each a list of symbols.
Nonterminals are numbered, first the productions in order, then those of nested
expressions as they are met.

An unbounded repetition ends in a star, which derives itself followed by an item,
or nothing; the chart then stays linear in the number of items. A bounded one ends
in a chain of optional items.
-/

namespace CommandGrammar

/-- A symbol of a flat rule. -/
inductive Symbol where
  /-- One token with this text. -/
  | literal (text : String)
  /-- Any one token. -/
  | value
  /-- What a nonterminal derives. -/
  | nonterminal (index : Nat)
deriving DecidableEq, Repr, Inhabited

/-- What a nonterminal stands for. -/
inductive Label where
  /-- The production of a node. -/
  | named (id : NodeId)
  /-- A nested expression. -/
  | auxiliary
  /-- The items of an unbounded repetition. -/
  | star (item : Symbol)
deriving DecidableEq, Repr, Inhabited

/-- A nonterminal and its alternatives, the preferred ones first. -/
structure Nonterminal where
  /-- What it stands for. -/
  label : Label
  /-- Its alternatives. -/
  alternatives : List (List Symbol)
deriving DecidableEq, Repr, Inhabited

/-- Flat rules: nonterminals by number, and the one to derive. -/
structure Rules where
  /-- The nonterminals. -/
  nonterminals : Array Nonterminal
  /-- The number of the one to derive. -/
  start : Nat
deriving Repr, Inhabited

namespace Flatten

/-- A part of an expression together with the nonterminals that it needed. -/
abbrev Made (α : Type) := α × List Nonterminal

/-- A new nonterminal, with a number, for alternatives. -/
def auxiliary (next : Nat) (made : Made (List (List Symbol))) : Made Symbol :=
  (.nonterminal next, ⟨.auxiliary, made.1⟩ :: made.2)

/-- The alternatives and the empty one after them. -/
def orEmpty (made : Made (List (List Symbol))) : Made (List (List Symbol)) :=
  (made.1 ++ [[]], made.2)

/-- The parts one after the other. -/
def joined (made : Made (List (List Symbol))) : Made (List Symbol) :=
  (made.1.flatten, made.2)

/-- The only alternative. -/
def only {α : Type} (made : Made α) : Made (List α) := ([made.1], made.2)

/-- The star of an item, and its number. -/
def starTail (number : Nat) (item : Symbol) : Made Symbol :=
  (.nonterminal number, [⟨.star item, [[.nonterminal number, item], []]⟩])

/-- A chain of optional items from a number on: the first link is empty and each further one
is an item and the link before it, or nothing. -/
def chainTail (number : Nat) (item : Symbol) (links : Nat) : Made Symbol :=
  (.nonterminal (number + links),
    ⟨.auxiliary, [[]]⟩ :: (List.range links).map fun link =>
      ⟨.auxiliary, [[item, .nonterminal (number + link)], []]⟩)

/-- A repetition of an item, numbered `next`; the item's nonterminals follow, then the tail's. -/
def repeated (next min : Nat) (max : Option Nat) (item : Made Symbol) : Made Symbol :=
  let number := next + 1 + item.2.length
  let tail := match max with
    | none => starTail number item.1
    | some max => chainTail number item.1 (max - min)
  (.nonterminal next,
    ⟨.auxiliary, [List.replicate min item.1 ++ [tail.1]]⟩ :: item.2 ++ tail.2)

mutual

/-- An expression as one symbol; new nonterminals are numbered from `next` on. -/
def symbol (rule : NodeId → Nat) (next : Nat) : Expr → Made Symbol
  | .literal text => (.literal text, [])
  | .value => (.value, [])
  | .rule id => (.nonterminal (rule id), [])
  | .seq items => auxiliary next (only (joined (sequences rule (next + 1) items)))
  | .alt items => auxiliary next (sequences rule (next + 1) items)
  | .optional inner => auxiliary next (orEmpty (alternatives rule (next + 1) inner))
  | .repetition inner min max => repeated next min max (symbol rule (next + 1) inner)

/-- An expression as a list of symbols, in which sequences are spread out. -/
def sequence (rule : NodeId → Nat) (next : Nat) : Expr → Made (List Symbol)
  | .literal text => ([.literal text], [])
  | .value => ([.value], [])
  | .rule id => ([.nonterminal (rule id)], [])
  | .seq items => joined (sequences rule next items)
  | .alt items => only (auxiliary next (sequences rule (next + 1) items))
  | .optional inner => only (auxiliary next (orEmpty (alternatives rule (next + 1) inner)))
  | .repetition inner min max => only (repeated next min max (symbol rule (next + 1) inner))

/-- An expression as alternatives, in which choices and options are spread out. -/
def alternatives (rule : NodeId → Nat) (next : Nat) : Expr → Made (List (List Symbol))
  | .literal text => ([[.literal text]], [])
  | .value => ([[.value]], [])
  | .rule id => ([[.nonterminal (rule id)]], [])
  | .seq items => only (joined (sequences rule next items))
  | .alt items => sequences rule next items
  | .optional inner => orEmpty (alternatives rule next inner)
  | .repetition inner min max =>
    only (only (repeated next min max (symbol rule (next + 1) inner)))

/-- Several expressions, each as a list of symbols. -/
def sequences (rule : NodeId → Nat) (next : Nat) : List Expr → Made (List (List Symbol))
  | [] => ([], [])
  | item :: rest =>
    let first := sequence rule next item
    let others := sequences rule (next + first.2.length) rest
    (first.1 :: others.1, first.2 ++ others.2)

end

/-- The nonterminals of productions, and those that their expressions needed. -/
def productions (rule : NodeId → Nat) (next : Nat) :
    List Production → Made (List Nonterminal)
  | [] => ([], [])
  | production :: rest =>
    let first := alternatives rule next production.expr
    let others := productions rule (next + first.2.length) rest
    (⟨.named production.id, first.1⟩ :: others.1, first.2 ++ others.2)

end Flatten

namespace Rules

/-- The flat rules of a grammar. -/
def ofGrammar (grammar : Grammar) : Rules :=
  let rule (id : NodeId) : Nat := grammar.ids.idxOf id
  let made := Flatten.productions rule grammar.size grammar.productions
  ⟨(made.1 ++ made.2).toArray, rule grammar.start⟩

/-- The alternatives of a nonterminal. -/
def alternatives (rules : Rules) (index : Nat) : List (List Symbol) :=
  match rules.nonterminals[index]? with
  | some nonterminal => nonterminal.alternatives
  | none => []

/-- What a nonterminal stands for. -/
def label (rules : Rules) (index : Nat) : Label :=
  match rules.nonterminals[index]? with
  | some nonterminal => nonterminal.label
  | none => .auxiliary

/-- Number of nonterminals. -/
def size (rules : Rules) : Nat := rules.nonterminals.size

/-- All symbols of all alternatives. -/
def symbols (rules : Rules) : List Symbol :=
  rules.nonterminals.toList.flatMap fun nonterminal => nonterminal.alternatives.flatten

/-- The literals that begin with a dash. -/
def triggers (rules : Rules) : List String :=
  rules.symbols.filterMap fun
    | .literal text => if text.toList.head? = some '-' then some text else none
    | _ => none

end Rules

/-- What a symbol matches a token as, if it does. -/
def Symbol.matches? (symbol : Symbol) (token : String) : Option LeafKind :=
  match symbol with
  | .literal text => if text = token then some .literal else none
  | .value => some .value
  | .nonterminal _ => none

end CommandGrammar
