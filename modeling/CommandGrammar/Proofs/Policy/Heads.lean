import Mathlib
import CommandGrammar.Proofs.Policy.Repetitions

/-!
# Expressions that begin with a terminal

In a headed grammar every production begins with a terminal, and what follows are
terminals, rules, optional literals and repetitions of rules. What begins with a terminal
takes a token, and so does each rule and each choice of rules.
-/

namespace CommandGrammar

namespace Expr

/-- A literal or the value terminal. -/
def isTerminal : Expr → Bool
  | .literal _ | .value => true
  | _ => false

/-- A rule. -/
def isRule : Expr → Bool
  | .rule _ => true
  | _ => false

/-- A rule, or a choice of rules. -/
def isItem : Expr → Bool
  | .rule _ => true
  | .alt items => items.all isRule
  | _ => false

/-- What may follow the first terminal of a production. -/
def isTail : Expr → Bool
  | .literal _ | .value | .rule _ | .optional (.literal _) => true
  | .repetition inner _ _ => inner.isItem
  | _ => false

/-- A terminal, or a sequence that begins with one. -/
def isHead : Expr → Bool
  | .literal _ | .value => true
  | .seq (first :: rest) => first.isTerminal && rest.all isTail
  | _ => false

/-- An expression that begins with a terminal, or a choice of such ones. -/
def isHeaded : Expr → Bool
  | .alt items => items.all isHead
  | expr => expr.isHead

end Expr

/-- Every production begins with a terminal. -/
def Grammar.isHeaded (grammar : Grammar) : Bool := grammar.productions.all (·.expr.isHeaded)

namespace Reading

variable {grammar : Grammar} {tokens : List String} {start stop low high : Nat}
  {fuel : Nat} {opened : List Span}

/-- A terminal takes one token. -/
theorem stop_of_terminal {expr : Expr} (terminal : expr.isTerminal = true)
    (spans : grammar.Spans tokens expr start stop) : stop = start + 1 := by
  cases expr with
  | literal text => exact (Grammar.spans_literal_iff.1 spans).1
  | value => exact (Grammar.spans_value_iff.1 spans).1
  | _ => cases terminal

/-- What begins with a terminal takes a token. -/
theorem isSolid_of_isHead {expr : Expr} (head : expr.isHead = true) :
    IsSolid grammar tokens expr := by
  intro first last spans
  cases expr with
  | literal text =>
    have next := stop_of_terminal rfl spans
    omega
  | value =>
    have next := stop_of_terminal rfl spans
    omega
  | seq items =>
    cases items with
    | nil => cases head
    | cons item rest =>
      rw [Expr.isHead, Bool.and_eq_true] at head
      obtain ⟨split, one, more⟩ := Grammar.spans_seq_cons_iff.1 spans
      have next := stop_of_terminal head.1 one
      have after := more.le
      omega
  | _ => cases head

/-- A headed expression takes a token. -/
theorem isSolid_of_isHeaded {expr : Expr} (headed : expr.isHeaded = true) :
    IsSolid grammar tokens expr := by
  cases expr with
  | alt items =>
    intro first last spans
    obtain ⟨item, member, inner⟩ := Grammar.spans_alt_iff.1 spans
    exact isSolid_of_isHead (List.all_eq_true.1 headed item member) first last inner
  | _ => exact isSolid_of_isHead headed

/-- The production of a node of a headed grammar is headed. -/
theorem isHeaded_of_production? (headed : grammar.isHeaded = true) {id : NodeId}
    {production : Production} (found : grammar.production? id = some production) :
    production.expr.isHeaded = true :=
  List.all_eq_true.1 headed production (Grammar.mem_of_production? found)

/-- A rule of a headed grammar takes a token. -/
theorem isSolid_rule (headed : grammar.isHeaded = true) (id : NodeId) :
    IsSolid grammar tokens (.rule id) := by
  intro first last spans
  obtain ⟨production, found, _⟩ := Grammar.derives_rule_iff.1 spans.2.2
  exact isSolid_of_isHeaded (isHeaded_of_production? headed found) first last
    ((Grammar.spans_rule_iff found).1 spans)

/-- A choice of rules of a headed grammar takes a token. -/
theorem isSolid_of_isItem (headed : grammar.isHeaded = true) {expr : Expr}
    (item : expr.isItem = true) : IsSolid grammar tokens expr := by
  cases expr with
  | rule id => exact isSolid_rule headed id
  | alt items =>
    intro first last spans
    obtain ⟨other, member, inner⟩ := Grammar.spans_alt_iff.1 spans
    have isRule := List.all_eq_true.1 item other member
    cases other with
    | rule id => exact isSolid_rule headed id first last inner
    | _ => cases isRule
  | _ => cases item

end Reading

end CommandGrammar
