import CommandGrammar.Chart.Rules

/-!
# Nullable nonterminals

A nonterminal is nullable if it derives the empty sequence. The marks grow from none
to all of these: a round marks every nonterminal with an alternative of marked
symbols only, and as many rounds as there are nonterminals are enough.
-/

namespace CommandGrammar

/-- Applies a step until nothing changes, at most a number of times. -/
def settle {α : Type} [DecidableEq α] (step : α → α) : Nat → α → α
  | 0, x => x
  | rounds + 1, x =>
    let next := step x
    if next = x then x else settle step rounds next

namespace Rules

/-- The symbol is a marked nonterminal. -/
def isMarked (marks : Array Bool) : Symbol → Bool
  | .nonterminal index => marks.getD index false
  | .literal _ | .value => false

/-- Marks the nonterminals with an alternative of marked symbols. -/
def markRound (rules : Rules) (marks : Array Bool) : Array Bool :=
  rules.nonterminals.map fun nonterminal =>
    nonterminal.alternatives.any (·.all (isMarked marks))

/-- The marks of the nullable nonterminals. -/
def nullable (rules : Rules) : Array Bool :=
  settle rules.markRound rules.size (Array.replicate rules.size false)

end Rules

end CommandGrammar
