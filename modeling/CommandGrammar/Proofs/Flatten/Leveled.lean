import Mathlib
import CommandGrammar.Proofs.Flatten.Language

/-!
# Leveled bounds

A repetition whose greatest number of parts lies below its least one derives nothing. Its chain of
optional parts has no link then, so its flat rules derive the least number of parts. These
are the flat rules of the repetition with the least number as its greatest one. A grammar
in which all such bounds are leveled is bounded, and has the same flat rules and table; so what is
proved of bounded grammars tells how any grammar is read.
-/

namespace CommandGrammar

/-- Bounds with the greatest number raised to the least one, if it lies below. -/
def leveledBounds (bounds : Nat × Option Nat) : Nat × Option Nat :=
  (bounds.1, bounds.2.map (max bounds.1))

mutual

/-- The expression with the bounds of its repetitions leveled. -/
def Expr.leveled : Expr → Expr
  | .literal text => .literal text
  | .value => .value
  | .rule id => .rule id
  | .seq items => .seq (leveledAll items)
  | .alt items => .alt (leveledAll items)
  | .optional inner => .optional inner.leveled
  | .repetition inner least most =>
    .repetition inner.leveled (leveledBounds (least, most)).1 (leveledBounds (least, most)).2

/-- The expressions with the bounds of their repetitions leveled. -/
def leveledAll : List Expr → List Expr
  | [] => []
  | item :: rest => item.leveled :: leveledAll rest

end

/-- Bounds between which there is some number are level. -/
theorem leveledBounds_of_le {least : Nat} {most : Option Nat}
    (ordered : most.all (least ≤ ·) = true) : leveledBounds (least, most) = (least, most) := by
  cases most with
  | none => rfl
  | some bound =>
    have above : least ≤ bound := by simpa using ordered
    simp [leveledBounds, above]

mutual

/-- A leveled expression is bounded. -/
theorem isBounded_leveled (expr : Expr) : expr.leveled.isBounded = true := by
  cases expr with
  | literal | value | rule => rfl
  | seq items | alt items => exact areBounded_leveled items
  | optional inner => exact isBounded_leveled inner
  | repetition inner least most =>
    rw [Expr.leveled, Expr.isBounded, isBounded_leveled inner]
    cases most <;> simp [leveledBounds]

/-- Leveled expressions are bounded. -/
theorem areBounded_leveled (items : List Expr) : areBounded (leveledAll items) = true := by
  cases items with
  | nil => rfl
  | cons item rest =>
    rw [leveledAll, areBounded, isBounded_leveled item, areBounded_leveled rest]
    rfl

end

mutual

/-- A bounded expression is level. -/
theorem leveled_of_isBounded (expr : Expr) (bounded : expr.isBounded = true) :
    expr.leveled = expr := by
  cases expr with
  | literal | value | rule => rfl
  | seq items | alt items => rw [Expr.leveled, leveledAll_of_areBounded items bounded]
  | optional inner => rw [Expr.leveled, leveled_of_isBounded inner bounded]
  | repetition inner least most =>
    rw [Expr.isBounded, Bool.and_eq_true] at bounded
    rw [Expr.leveled, leveled_of_isBounded inner bounded.1, leveledBounds_of_le bounded.2]

/-- Bounded expressions are level. -/
theorem leveledAll_of_areBounded (items : List Expr) (bounded : areBounded items = true) :
    leveledAll items = items := by
  cases items with
  | nil => rfl
  | cons item rest =>
    rw [areBounded, Bool.and_eq_true] at bounded
    rw [leveledAll, leveled_of_isBounded item bounded.1, leveledAll_of_areBounded rest bounded.2]

end

mutual

/-- A leveled expression refers to the same nodes. -/
theorem references_leveled (expr : Expr) : expr.leveled.references = expr.references := by
  cases expr with
  | literal | value | rule => rfl
  | seq items | alt items => exact referencesOf_leveled items
  | optional inner => exact references_leveled inner
  | repetition inner least most => exact references_leveled inner

/-- Leveled expressions refer to the same nodes. -/
theorem referencesOf_leveled (items : List Expr) :
    referencesOf (leveledAll items) = referencesOf items := by
  cases items with
  | nil => rfl
  | cons item rest =>
    rw [leveledAll, referencesOf, referencesOf, references_leveled item, referencesOf_leveled rest]

end

/-! ## Flat rules -/

namespace Flatten

/-- A repetition has the same nonterminals with leveled bounds: a chain has as many links as the
greatest number is above the least one. -/
theorem repeated_leveled (next least : Nat) (most : Option Nat) (item : Made Symbol) :
    repeated next (leveledBounds (least, most)).1 (leveledBounds (least, most)).2 item =
      repeated next least most item := by
  cases most with
  | none => rfl
  | some bound =>
    have links : max least bound - least = bound - least := by omega
    simp only [leveledBounds, Option.map_some, repeated, links]

variable (rule : NodeId → Nat)

mutual

/-- A leveled expression is the same symbol. -/
theorem symbol_leveled (next : Nat) (expr : Expr) :
    symbol rule next expr.leveled = symbol rule next expr := by
  cases expr with
  | literal | value | rule => rfl
  | seq items | alt items => simp only [Expr.leveled, symbol, sequences_leveled (next + 1) items]
  | optional inner => simp only [Expr.leveled, symbol, alternatives_leveled (next + 1) inner]
  | repetition inner least most =>
    rw [Expr.leveled, symbol, symbol_leveled (next + 1) inner, repeated_leveled, symbol]

/-- A leveled expression is the same sequence of symbols. -/
theorem sequence_leveled (next : Nat) (expr : Expr) :
    sequence rule next expr.leveled = sequence rule next expr := by
  cases expr with
  | literal | value | rule => rfl
  | seq items => simp only [Expr.leveled, sequence, sequences_leveled next items]
  | alt items => simp only [Expr.leveled, sequence, sequences_leveled (next + 1) items]
  | optional inner => simp only [Expr.leveled, sequence, alternatives_leveled (next + 1) inner]
  | repetition inner least most =>
    rw [Expr.leveled, sequence, symbol_leveled (next + 1) inner, repeated_leveled, sequence]

/-- A leveled expression has the same alternatives. -/
theorem alternatives_leveled (next : Nat) (expr : Expr) :
    alternatives rule next expr.leveled = alternatives rule next expr := by
  cases expr with
  | literal | value | rule => rfl
  | seq items | alt items =>
    simp only [Expr.leveled, alternatives, sequences_leveled next items]
  | optional inner => simp only [Expr.leveled, alternatives, alternatives_leveled next inner]
  | repetition inner least most =>
    rw [Expr.leveled, alternatives, symbol_leveled (next + 1) inner, repeated_leveled, alternatives]

/-- Leveled expressions are the same sequences of symbols. -/
theorem sequences_leveled (next : Nat) (items : List Expr) :
    sequences rule next (leveledAll items) = sequences rule next items := by
  cases items with
  | nil => rfl
  | cons item rest =>
    simp only [leveledAll, sequences, sequence_leveled next item, sequences_leveled _ rest]

end

/-- Productions with leveled expressions have the same nonterminals. -/
theorem productions_leveled (next : Nat) (productions : List Production) :
    Flatten.productions rule next
        (productions.map fun production => { production with expr := production.expr.leveled }) =
      Flatten.productions rule next productions := by
  induction productions generalizing next with
  | nil => rfl
  | cons production rest ih =>
    simp only [List.map_cons, Flatten.productions, alternatives_leveled rule next production.expr,
      ih]

end Flatten

/-! ## Grammars -/

namespace Grammar

variable {grammar : Grammar}

/-- The grammar with the bounds of its repetitions leveled. -/
def leveled (grammar : Grammar) : Grammar where
  productions := grammar.productions.map fun production =>
    { production with expr := production.expr.leveled }
  start := grammar.start

/-- A leveled grammar has productions for the same nodes. -/
@[simp] theorem ids_leveled (grammar : Grammar) : grammar.leveled.ids = grammar.ids := by
  rw [ids, ids, leveled, List.map_map]
  rfl

/-- A leveled grammar has the leveled production of a node. -/
theorem production?_leveled (id : NodeId) : grammar.leveled.production? id =
    (grammar.production? id).map fun production =>
      { production with expr := production.expr.leveled } := by
  rw [production?, leveled, List.find?_map]
  rfl

/-- A leveled grammar is closed exactly if the grammar is. -/
@[simp] theorem isClosed_leveled (grammar : Grammar) :
    grammar.leveled.isClosed = grammar.isClosed := by
  simp [isClosed, leveled, references_leveled, ids, Function.comp_def]

/-- A leveled grammar is bounded. -/
theorem isBounded_leveled (grammar : Grammar) : grammar.leveled.isBounded = true := by
  rw [isBounded, List.all_eq_true]
  intro production member
  obtain ⟨own, _, rfl⟩ := List.mem_map.1 member
  exact CommandGrammar.isBounded_leveled own.expr

/-- A bounded grammar is level. -/
theorem leveled_of_isBounded (bounded : grammar.isBounded = true) : grammar.leveled = grammar := by
  have each : ∀ production ∈ grammar.productions,
      { production with expr := production.expr.leveled } = production := by
    intro production member
    rw [CommandGrammar.leveled_of_isBounded _ (List.all_eq_true.1 bounded production member)]
  rw [leveled, List.map_congr_left each, List.map_id']

/-- A leveled grammar has the same flat rules. -/
theorem rules_leveled (grammar : Grammar) :
    Rules.ofGrammar grammar.leveled = Rules.ofGrammar grammar := by
  have size : grammar.leveled.size = grammar.size := by simp [Grammar.size, leveled]
  simp only [Rules.ofGrammar, ids_leveled, size]
  rw [leveled, Flatten.productions_leveled]

/-- A leveled grammar has the same table, so that everything is parsed and refused as before. -/
theorem table_leveled (grammar : Grammar) :
    Table.ofGrammar grammar.leveled = Table.ofGrammar grammar := by
  rw [Table.ofGrammar, rules_leveled, Table.ofGrammar]

end Grammar

end CommandGrammar
